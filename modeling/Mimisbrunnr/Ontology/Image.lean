import Mathlib.Data.Prod.Lex
import Mimisbrunnr.Lib.SortedEntries
import Mimisbrunnr.Ontology.Registry

/-!
# The ontology image

The on-disk form of the registry: the definitions, a snapshot of the graph, the
relations and the module records, each sorted. The table of names is not stored;
loading rebuilds it from the definitions, and both tables are keyed by what the
definitions say. The CBOR coding of the image belongs to a library and is left
out.
-/

namespace Mimisbrunnr.Ontology

set_option autoImplicit false

open Mimisbrunnr.Lib
open Mimisbrunnr.Lib.Digraph
open Mimisbrunnr.Lib.FiniteMap
open Mimisbrunnr.Types

structure OntologyImage where
  formatVersion : UInt16
  tags : List TagDefinition
  dag : DagSnapshot
  relations : List (TagId × TagRelation × TagId)
  modules : List ModuleRecord

def ontologyImageFormatVersion : UInt16 := 1

/-- The position of a relation kind in the order of its declaration. -/
def relationRank : TagRelation → Nat
  | .impliedBy => 0
  | .mutuallyExclusive => 1
  | .requires => 2
  | .alias => 3

def relationOrder (left right : TagId × TagRelation × TagId) : Prop :=
  toLex (left.1, toLex (relationRank left.2.1, left.2.2)) ≤
    toLex (right.1, toLex (relationRank right.2.1, right.2.2))

instance : DecidableRel relationOrder := fun left right =>
  inferInstanceAs (Decidable (toLex (left.1, toLex (relationRank left.2.1, left.2.2)) ≤
    toLex (right.1, toLex (relationRank right.2.1, right.2.2))))

namespace OntologyState

def toImage (s : OntologyState) : OntologyImage :=
  { formatVersion := ontologyImageFormatVersion
    tags := ((toSorted s.tags).map Prod.snd).insertionSort fun a b => a.id ≤ b.id
    dag := s.dag.snapshot
    relations := s.relations.insertionSort relationOrder
    modules := ((toSorted s.installedModules).map Prod.snd).insertionSort fun a b => a.id ≤ b.id }

end OntologyState

namespace OntologyImage

def intoState (topo : Toposort TagId) (image : OntologyImage) :
    Except OntologyError OntologyState :=
  if image.formatVersion > ontologyImageFormatVersion then
    .error (.cbor ("ontology image format_version " ++ toString image.formatVersion ++
      " exceeds supported " ++ toString ontologyImageFormatVersion))
  else
    match ImplicationDag.fromSnapshot topo image.dag with
    | .error err => .error err
    | .ok dag =>
        .ok
          { tags := ofEntries (image.tags.map fun definition => (definition.id, definition))
            names := ofEntries (image.tags.map fun definition => (definition.name, definition.id))
            dag := dag
            relations := image.relations
            installedModules := ofEntries (image.modules.map fun record => (record.id, record)) }

end OntologyImage

namespace OntologyState

theorem mem_image_tags (s : OntologyState) (definition : TagDefinition) :
    definition ∈ s.toImage.tags ↔ ∃ tag, s.tags.lookup tag = some definition := by
  rw [toImage, List.mem_insertionSort, List.mem_map]
  constructor
  · rintro ⟨⟨tag, other⟩, member, rfl⟩
    exact ⟨tag, (mem_to_sorted s.tags tag other).mp member⟩
  · rintro ⟨tag, found⟩
    exact ⟨(tag, definition), (mem_to_sorted s.tags tag definition).mpr found, rfl⟩

private theorem image_names_distinct (s : OntologyState) (tables : s.Tables) (keyed : s.Keyed) :
    (s.toImage.tags.map TagDefinition.name).Nodup := by
  refine List.Nodup.map_on ?_ ?_
  · intro left leftMember right rightMember same
    obtain ⟨tag, leftFound⟩ := (s.mem_image_tags left).mp leftMember
    obtain ⟨other, rightFound⟩ := (s.mem_image_tags right).mp rightMember
    have first := tables.name_of_tag tag left leftFound
    have second := tables.name_of_tag other right rightFound
    rw [same, second] at first
    cases first
    rw [leftFound] at rightFound
    exact Option.some.inj rightFound
  · rw [toImage, (List.perm_insertionSort _ _).nodup_iff]
    refine List.Nodup.map_on ?_ ?_
    · rintro ⟨left, value⟩ leftMember ⟨right, other⟩ rightMember same
      obtain rfl : value = other := same
      have first := keyed left value ((mem_to_sorted s.tags left value).mp leftMember)
      have second := keyed right value ((mem_to_sorted s.tags right value).mp rightMember)
      rw [first] at second
      rw [second]
    · exact List.Nodup.of_map Prod.fst ((increasing_to_sorted s.tags).imp fun less => ne_of_lt less)

/-- The image of a registry whose tables agree loads, and to the same registry
up to the order of the relations. -/
theorem image_reloads (topo : Toposort TagId) (s : OntologyState) (tables : s.Tables)
    (keyed : s.Keyed) :
    ∃ loaded, s.toImage.intoState topo = .ok loaded ∧
      loaded.tags = s.tags ∧ loaded.names = s.names ∧ loaded.relations.Perm s.relations ∧
      loaded.dag.Valid ∧ (∀ tag, loaded.dag.IsNode tag ↔ s.dag.IsNode tag) ∧
      ∀ a b, loaded.dag.TagEdge a b ↔ s.dag.TagEdge a b := by
  obtain ⟨dag, reloaded, valid, nodes, edges⟩ := s.dag.snapshot_reloads topo tables.valid
  have supported : ¬ s.toImage.formatVersion > ontologyImageFormatVersion := by
    change ¬ ontologyImageFormatVersion > ontologyImageFormatVersion
    decide
  let loaded : OntologyState :=
    { tags := ofEntries (s.toImage.tags.map fun definition => (definition.id, definition))
      names := ofEntries (s.toImage.tags.map fun definition => (definition.name, definition.id))
      dag := dag
      relations := s.toImage.relations
      installedModules := ofEntries (s.toImage.modules.map fun record => (record.id, record)) }
  refine ⟨loaded, ?_, ?_, ?_, ?_, valid, nodes, edges⟩
  · have sameDag : ImplicationDag.fromSnapshot topo s.toImage.dag = .ok dag := reloaded
    rw [OntologyImage.intoState, if_neg supported, sameDag]
  · exact of_entries_sorted_values s.tags TagDefinition.id _ keyed
  · have distinct : ((s.toImage.tags.map fun definition =>
        (definition.name, definition.id)).map Prod.fst).Nodup := by
      rw [List.map_map]
      exact s.image_names_distinct tables keyed
    apply Finmap.ext_lookup
    intro name
    apply Option.ext
    intro tag
    rw [tables.named]
    refine (lookup_of_entries_iff _ distinct name tag).trans ?_
    rw [List.mem_map]
    constructor
    · rintro ⟨definition, member, same⟩
      obtain ⟨other, found⟩ := (s.mem_image_tags definition).mp member
      obtain ⟨rfl, rfl⟩ := Prod.mk.injEq .. ▸ same
      rw [keyed other definition found]
      exact ⟨definition, found, rfl⟩
    · rintro ⟨definition, found, rfl⟩
      refine ⟨definition, (s.mem_image_tags definition).mpr ⟨tag, found⟩, ?_⟩
      rw [keyed tag definition found]
  · exact List.perm_insertionSort relationOrder s.relations

end OntologyState

end Mimisbrunnr.Ontology
