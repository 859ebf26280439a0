import Mimisbrunnr.Lib.Digraph
import Mimisbrunnr.Lib.FiniteMap
import Mimisbrunnr.Lib.SortedSet
import Mimisbrunnr.Types.Ontology

/-!
# The implication graph

`ImplicationDag` keeps an index-based graph whose node weights are tags and a
table from tags to node indices. The graph library renumbers a node when
another one is removed, and the table is patched by hand; the invariant `Valid`
says that the patching is right, that no implication is stored twice and that
the graph has no cycle.

The operations are described once at the level of tags: which tags are nodes
and which pairs of tags are edges. Everything above this module uses these
descriptions and not the indices.
-/

namespace Mimisbrunnr.Ontology

set_option autoImplicit false

open Relation
open Mimisbrunnr.Lib
open Mimisbrunnr.Lib.Digraph
open Mimisbrunnr.Lib.FiniteMap
open Mimisbrunnr.Lib.Worklist
open Mimisbrunnr.Types

structure ImplicationDag where
  graph : DiGraph TagId
  nodes : FMap TagId Nat

namespace ImplicationDag

def new : ImplicationDag :=
  { graph := DiGraph.empty
    nodes := ∅ }

/-- The weight of a node; an index outside the graph never occurs in a valid
state. -/
def weight (d : ImplicationDag) (index : Nat) : TagId := d.graph.nodes[index]?.getD 0

def addTag (d : ImplicationDag) (tag : TagId) : ImplicationDag :=
  if (d.nodes.lookup tag).isSome then d
  else
    { graph := (d.graph.addNode tag).1
      nodes := d.nodes.insert tag (d.graph.addNode tag).2 }

def contains (d : ImplicationDag) (tag : TagId) : Bool := (d.nodes.lookup tag).isSome

def cycleCheck (topo : Toposort TagId) (d : ImplicationDag) : Except OntologyError Unit :=
  match topo.run d.graph with
  | .ok _ => .ok ()
  | .error node =>
      let target := d.weight node
      let source :=
        match d.graph.incoming node with
        | [] => target
        | origin :: _ => d.weight origin
      .error (.cycleDetected source target)

def addImplication (topo : Toposort TagId) (d : ImplicationDag) (source target : TagId) :
    Except OntologyError Unit × ImplicationDag :=
  match d.nodes.lookup source with
  | none => (.error (.tagNotFound source), d)
  | some sourceIdx =>
      match d.nodes.lookup target with
      | none => (.error (.tagNotFound target), d)
      | some targetIdx =>
          if (d.graph.findEdge sourceIdx targetIdx).isSome then (.ok (), d)
          else
            let (graph, edge) := d.graph.addEdge sourceIdx targetIdx
            let grown := { d with graph := graph }
            match grown.cycleCheck topo with
            | .error err => (.error err, { grown with graph := grown.graph.removeEdge edge })
            | .ok _ => (.ok (), grown)

def removeImplication (d : ImplicationDag) (source target : TagId) : ImplicationDag :=
  match d.nodes.lookup source, d.nodes.lookup target with
  | some sourceIdx, some targetIdx =>
      match d.graph.findEdge sourceIdx targetIdx with
      | some edge => { d with graph := d.graph.removeEdge edge }
      | none => d
  | _, _ => d

def removeTag (d : ImplicationDag) (tag : TagId) : ImplicationDag :=
  match d.nodes.lookup tag with
  | none => d
  | some idx =>
      let nodes := d.nodes.erase tag
      let last := d.graph.nodeCount - 1
      let lastTag := d.weight last
      { graph := d.graph.removeNode idx
        nodes := if last ≠ idx then nodes.insert lastTag idx else nodes }

def reachable (d : ImplicationDag) (start target : Nat) : Bool :=
  d.graph.pathSearch start target

def isA (d : ImplicationDag) (tag ancestor : TagId) : Bool :=
  if tag = ancestor then (d.nodes.lookup tag).isSome
  else
    match d.nodes.lookup tag, d.nodes.lookup ancestor with
    | some start, some target => d.reachable start target
    | _, _ => false

def directImplies (d : ImplicationDag) (tag : TagId) : List TagId :=
  match d.nodes.lookup tag with
  | none => []
  | some idx => (d.graph.outgoing idx).map d.weight

/-- One member of the input of `closure`: a node not seen before enters the
result, the visited set and the queue. -/
def seed (d : ImplicationDag) (s : Frontier Nat (List TagId)) (tag : TagId) :
    Frontier Nat (List TagId) :=
  match d.nodes.lookup tag with
  | none => s
  | some idx => discover (fun result _ => SortedSet.insert tag result) s idx

def closure (d : ImplicationDag) (directTags : List TagId) : List TagId :=
  let seeded := directTags.foldl d.seed { queue := [], visited := ∅, acc := [] }
  (drain d.graph.outgoing (fun result node => SortedSet.insert (d.weight node) result)
    d.graph.nodeCount seeded).acc

def topologicalSort (topo : Toposort TagId) (d : ImplicationDag) :
    Except OntologyError (List TagId) :=
  match topo.run d.graph with
  | .ok order => .ok (order.map d.weight)
  | .error node =>
      let target := d.weight node
      let source :=
        match d.graph.incoming node with
        | [] => target
        | origin :: _ => d.weight origin
      .error (.cycleDetected source target)

def tags (d : ImplicationDag) : List TagId := d.graph.nodes

def edges (d : ImplicationDag) : List (TagId × TagId) :=
  d.graph.edges.map fun edge => (d.weight edge.1, d.weight edge.2)

end ImplicationDag

structure DagSnapshot where
  tags : List TagId
  edges : List (TagId × TagId)
deriving DecidableEq

def edgeOrder (left right : TagId × TagId) : Prop :=
  left.1 < right.1 ∨ (left.1 = right.1 ∧ left.2 ≤ right.2)

instance (left right : TagId × TagId) : Decidable (edgeOrder left right) :=
  inferInstanceAs (Decidable (_ ∨ _))

namespace ImplicationDag

def snapshot (d : ImplicationDag) : DagSnapshot :=
  { tags := d.tags.insertionSort (· ≤ ·)
    edges := d.edges.insertionSort edgeOrder }

/-- The edge loop of `from_snapshot`: the first refused edge ends it. -/
def addImplications (topo : Toposort TagId) (d : ImplicationDag) :
    List (TagId × TagId) → Except OntologyError ImplicationDag
  | [] => .ok d
  | (source, target) :: rest =>
      match d.addImplication topo source target with
      | (.error err, _) => .error err
      | (.ok _, grown) => grown.addImplications topo rest

def fromSnapshot (topo : Toposort TagId) (snap : DagSnapshot) :
    Except OntologyError ImplicationDag :=
  (snap.tags.foldl addTag new).addImplications topo snap.edges

end ImplicationDag

end Mimisbrunnr.Ontology
