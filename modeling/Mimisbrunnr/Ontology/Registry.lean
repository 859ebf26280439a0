import Mimisbrunnr.Ontology.Lifecycle

/-!
# What installing and scrubbing do to the tables

A tag is known in several places: the table of definitions, the table of names,
the nodes of the graph, the ends of the relations and the `implies` lists.
`Tables` says that the first three agree, `Coherent` that the other two mention
registered tags only. Each phase of an installation is described once in terms
of these tables, a scrub likewise, and the results about whole lifecycles use
nothing else.

An installation never collides with a registered tag as long as its allocator
is above every registered id and does not wrap before its last new name. `Room`
says so, and says nothing of an installation that brings no new name.
-/

namespace Mimisbrunnr.Ontology.OntologyState

set_option autoImplicit false

open Mimisbrunnr.Lib
open Mimisbrunnr.Lib.Digraph
open Mimisbrunnr.Lib.FiniteMap
open Mimisbrunnr.Types

/-- The two tables are inverse to each other, and the nodes of the graph are the
registered tags. -/
structure Tables (s : OntologyState) : Prop where
  valid : s.dag.Valid
  named : ∀ name tag, s.names.lookup name = some tag ↔
    ∃ definition, s.tags.lookup tag = some definition ∧ definition.name = name
  nodes : ∀ tag, s.dag.IsNode tag ↔ tag ∈ s.tags

/-- No reference to a tag dangles, and the definitions list the implications of
the graph. -/
structure Coherent (s : OntologyState) : Prop extends Tables s where
  ends : ∀ source kind target, (source, kind, target) ∈ s.relations →
    source ∈ s.tags ∧ target ∈ s.tags
  implied : ∀ tag definition, s.tags.lookup tag = some definition →
    ∀ target ∈ definition.implies, target ∈ s.tags
  listed : ∀ tag definition, s.tags.lookup tag = some definition →
    definition.implies.Perm (s.dag.directImplies tag)

def Keyed (s : OntologyState) : Prop :=
  ∀ tag definition, s.tags.lookup tag = some definition → definition.id = tag

def Below (s : OntologyState) (allocator : IdAllocator) : Prop :=
  ∀ tag ∈ s.tags, tag < allocator.next

def newDefinitions (s : OntologyState) (definitions : List TagDefinition) : List TagDefinition :=
  definitions.filter fun definition => (s.names.lookup definition.name).isNone

/-- The ids that the definitions get are above the registered ones and fit the counter. -/
def Room (s : OntologyState) (definitions : List TagDefinition) (allocator : IdAllocator) : Prop :=
  s.newDefinitions definitions ≠ [] →
    s.Below allocator ∧ allocator.next + (s.newDefinitions definitions).length ≤ 2 ^ 32

theorem new_tables : new.Tables where
  valid := ImplicationDag.new_valid
  named := by
    intro name tag
    simp [new]
  nodes := by
    intro tag
    exact iff_of_false Finmap.notMem_empty Finmap.notMem_empty

theorem new_coherent : new.Coherent where
  toTables := new_tables
  ends := by
    intro source kind target member
    simp [new] at member
  implied := by
    intro tag definition found
    simp [new] at found
  listed := by
    intro tag definition found
    simp [new] at found

namespace Tables

theorem name_of_tag {s : OntologyState} (tables : s.Tables) (tag : TagId)
    (definition : TagDefinition) (found : s.tags.lookup tag = some definition) :
    s.names.lookup definition.name = some tag :=
  (tables.named definition.name tag).mpr ⟨definition, found, rfl⟩

theorem tag_of_name {s : OntologyState} (tables : s.Tables) (name : String) (tag : TagId)
    (found : s.names.lookup name = some tag) : tag ∈ s.tags := by
  obtain ⟨definition, located, -⟩ := (tables.named name tag).mp found
  exact Finmap.mem_iff.mpr ⟨definition, located⟩

theorem mem_iff_named {s : OntologyState} (tables : s.Tables) (tag : TagId) :
    tag ∈ s.tags ↔ ∃ name, s.names.lookup name = some tag := by
  constructor
  · intro present
    obtain ⟨definition, found⟩ := Finmap.mem_iff.mp present
    exact ⟨definition.name, tables.name_of_tag tag definition found⟩
  · rintro ⟨name, found⟩
    exact tables.tag_of_name name tag found

theorem same_name {s : OntologyState} (tables : s.Tables) (left right : String) (tag : TagId)
    (first : s.names.lookup left = some tag) (second : s.names.lookup right = some tag) :
    left = right := by
  obtain ⟨definition, located, named⟩ := (tables.named left tag).mp first
  obtain ⟨other, again, renamed⟩ := (tables.named right tag).mp second
  rw [located] at again
  cases again
  exact named.symm.trans renamed

end Tables

/-- What the first phase of an installation does: `fresh` are the tags it adds,
each for a definition whose name was free. -/
structure Registration (definitions : List TagDefinition) (s after : OntologyState)
    (fresh : List TagId) : Prop where
  tables : after.Tables
  relations : after.relations = s.relations
  records : after.installedModules = s.installedModules
  edges : ∀ a b, after.dag.TagEdge a b ↔ s.dag.TagEdge a b
  kept : ∀ tag definition, s.tags.lookup tag = some definition →
    after.tags.lookup tag = some definition
  added : ∀ tag, tag ∈ fresh ↔ tag ∈ after.tags ∧ tag ∉ s.tags
  origin : ∀ tag definition, after.tags.lookup tag = some definition → tag ∉ s.tags →
    s.names.lookup definition.name = none ∧
      ∃ given ∈ definitions, definition = { given with id := tag }
  covers : ∀ definition ∈ definitions, ∃ tag, after.names.lookup definition.name = some tag

theorem register_one (s : OntologyState) (id : TagId) (definition : TagDefinition)
    (tables : s.Tables) (unused : id ∉ s.tags) (free : s.names.lookup definition.name = none) :
    Registration [definition] s
      { s with
        dag := s.dag.addTag id
        names := s.names.insert definition.name id
        tags := s.tags.insert id { definition with id := id } } [id] where
  tables :=
    { valid := s.dag.add_tag_valid id tables.valid
      named := by
        intro name tag
        simp only [lookup_insert_eq]
        by_cases sameName : name = definition.name
        · subst sameName
          rw [if_pos rfl]
          constructor
          · rintro ⟨rfl⟩
            exact ⟨_, if_pos rfl, rfl⟩
          · rintro ⟨registered, found, named⟩
            split at found
            · next same => rw [same]
            · have clash := (tables.named _ tag).mpr ⟨registered, found, named⟩
              rw [free] at clash
              cases clash
        · rw [if_neg sameName]
          by_cases sameTag : tag = id
          · subst sameTag
            simp only [if_true, Option.some.injEq]
            constructor
            · intro found
              exact absurd (tables.tag_of_name name tag found) unused
            · rintro ⟨registered, rfl, named⟩
              exact absurd named.symm sameName
          · simp only [if_neg sameTag]
            exact tables.named name tag
      nodes := by
        intro tag
        rw [s.dag.is_node_add_tag, tables.nodes, Finmap.mem_insert] }
  relations := rfl
  records := rfl
  edges := fun a b => s.dag.tag_edge_add_tag id a b tables.valid.toIndexed
  kept := by
    intro tag registered found
    have different : tag ≠ id := by
      rintro rfl
      exact unused (Finmap.mem_iff.mpr ⟨registered, found⟩)
    rw [lookup_insert_eq, if_neg different, found]
  added := by
    intro tag
    rw [List.mem_singleton, Finmap.mem_insert]
    constructor
    · rintro rfl
      exact ⟨Or.inl rfl, unused⟩
    · rintro ⟨same | old, new⟩
      · exact same
      · exact absurd old new
  origin := by
    intro tag registered found new
    rw [lookup_insert_eq] at found
    split at found
    · next same =>
        cases found
        exact ⟨free, definition, List.mem_singleton_self definition, by rw [same]⟩
    · exact absurd (Finmap.mem_iff.mpr ⟨registered, found⟩) new
  covers := by
    intro given member
    obtain rfl := List.mem_singleton.mp member
    exact ⟨id, by rw [lookup_insert_eq, if_pos rfl]⟩

theorem Registration.name_kept {definitions : List TagDefinition} {s after : OntologyState}
    {fresh : List TagId} (registration : Registration definitions s after fresh)
    (tables : s.Tables) (name : String) (tag : TagId) (found : s.names.lookup name = some tag) :
    after.names.lookup name = some tag := by
  obtain ⟨definition, located, rfl⟩ := (tables.named name tag).mp found
  exact registration.tables.name_of_tag tag definition (registration.kept tag definition located)

private theorem Registration.tag_kept {definitions : List TagDefinition} {s after : OntologyState}
    {fresh : List TagId} (registration : Registration definitions s after fresh) (tag : TagId)
    (old : tag ∈ s.tags) : tag ∈ after.tags := by
  obtain ⟨definition, found⟩ := Finmap.mem_iff.mp old
  exact Finmap.mem_iff.mpr ⟨definition, registration.kept tag definition found⟩

private theorem Registration.append {first second : List TagDefinition}
    {s middle after : OntologyState}
    {earlier later : List TagId} (tables : s.Tables) (left : Registration first s middle earlier)
    (right : Registration second middle after later) :
    Registration (first ++ second) s after (earlier ++ later) where
  tables := right.tables
  relations := right.relations.trans left.relations
  records := right.records.trans left.records
  edges := fun a b => (right.edges a b).trans (left.edges a b)
  kept := fun tag definition found => right.kept tag definition (left.kept tag definition found)
  added := by
    intro tag
    rw [List.mem_append, left.added, right.added]
    constructor
    · rintro (⟨present, new⟩ | ⟨present, new⟩)
      · exact ⟨right.tag_kept tag present, new⟩
      · exact ⟨present, fun old => new (left.tag_kept tag old)⟩
    · rintro ⟨present, new⟩
      by_cases seen : tag ∈ middle.tags
      · exact Or.inl ⟨seen, new⟩
      · exact Or.inr ⟨present, seen⟩
  origin := by
    intro tag definition found new
    rcases located : middle.tags.lookup tag with _ | registered
    · obtain ⟨free, given, member, same⟩ :=
        right.origin tag definition found (Finmap.lookup_eq_none.mp located)
      refine ⟨?_, given, List.mem_append_right first member, same⟩
      rcases named : s.names.lookup definition.name with _ | other
      · rfl
      · rw [left.name_kept tables _ other named] at free
        cases free
    · have same := right.kept tag registered located
      rw [found] at same
      cases same
      obtain ⟨free, given, member, same⟩ := left.origin tag definition located new
      exact ⟨free, given, List.mem_append_left second member, same⟩
  covers := by
    intro definition member
    rcases List.mem_append.mp member with early | late
    · obtain ⟨tag, found⟩ := left.covers definition early
      exact ⟨tag, right.name_kept left.tables _ tag found⟩
    · exact right.covers definition late

private theorem Registration.refl {s : OntologyState} (tables : s.Tables)
    (definitions : List TagDefinition)
    (known : ∀ definition ∈ definitions, ∃ tag, s.names.lookup definition.name = some tag) :
    Registration definitions s s [] where
  tables := tables
  relations := rfl
  records := rfl
  edges := fun _ _ => Iff.rfl
  kept := fun _ _ found => found
  added := by
    intro tag
    simp only [List.not_mem_nil, false_iff]
    exact fun both => both.2 both.1
  origin := fun _ definition found new => absurd (Finmap.mem_iff.mpr ⟨definition, found⟩) new
  covers := known

theorem new_definitions_length {s grown : OntologyState} (definitions : List TagDefinition)
    (kept : ∀ name, (grown.names.lookup name).isNone = true → (s.names.lookup name).isNone = true) :
    (grown.newDefinitions definitions).length ≤ (s.newDefinitions definitions).length :=
  List.Sublist.length_le (List.monotone_filter_right definitions fun definition => kept definition.name)

theorem Registration.nothing_fresh {definitions : List TagDefinition} {s after : OntologyState}
    {fresh : List TagId} (registration : Registration definitions s after fresh)
    (known : s.newDefinitions definitions = []) (tag : TagId) : tag ∉ fresh := by
  intro member
  obtain ⟨present, new⟩ := (registration.added tag).mp member
  obtain ⟨definition, found⟩ := Finmap.mem_iff.mp present
  obtain ⟨free, given, listed, rfl⟩ := registration.origin tag definition found new
  have unknown : given ∈ s.newDefinitions definitions := List.mem_filter.mpr ⟨listed, by simpa using free⟩
  rw [known] at unknown
  cases unknown

/-- The fresh ids start at the allocator, which steps from one to the next
without wrapping. -/
theorem register_tags_spec (definitions : List TagDefinition) (s : OntologyState)
    (allocator : IdAllocator) (registered : List TagId) (skipped : Nat) (tables : s.Tables)
    (room : s.Room definitions allocator) :
    ∃ fresh, (registerTags definitions s allocator registered skipped).2.2.1 =
        registered ++ fresh ∧
      Registration definitions s (registerTags definitions s allocator registered skipped).1
        fresh ∧
      ∀ tag ∈ fresh, allocator.next ≤ tag := by
  induction definitions generalizing s allocator registered skipped with
  | nil =>
      refine ⟨[], (List.append_nil registered).symm, ?_, by simp⟩
      exact Registration.refl tables [] (by simp)
  | cons definition rest ih =>
      rw [registerTags]
      rcases named : s.names.lookup definition.name with _ | existing
      · have split : s.newDefinitions (definition :: rest) = definition :: s.newDefinitions rest := by
          simp [newDefinitions, named]
        obtain ⟨below, fits⟩ := room (by simp [split])
        rw [split, List.length_cons] at fits
        have unused : allocator.next ∉ s.tags := fun present => Nat.lt_irrefl _ (below _ present)
        have one := s.register_one allocator.next definition tables unused named
        simp only [IdAllocator.nextId]
        have shrinks : (newDefinitions
              { s with
                dag := s.dag.addTag allocator.next
                names := s.names.insert definition.name allocator.next
                tags := s.tags.insert allocator.next { definition with id := allocator.next } }
              rest).length ≤ (s.newDefinitions rest).length := by
          apply new_definitions_length
          intro name unknown
          rw [lookup_insert_eq] at unknown
          split at unknown
          · cases unknown
          · exact unknown
        obtain ⟨fresh, appended, registration, bounds⟩ :=
          ih _ { next := (allocator.next + 1) % 2 ^ 32 } (registered ++ [allocator.next]) skipped
            one.tables (by
              intro more
              have later := List.length_pos_iff.mpr more
              have steps : (allocator.next + 1) % 2 ^ 32 = allocator.next + 1 :=
                Nat.mod_eq_of_lt (by omega)
              refine ⟨?_, by simp only [steps]; omega⟩
              intro tag present
              simp only [steps]
              rcases (Finmap.mem_insert).mp present with rfl | old
              · exact Nat.lt_succ_self _
              · exact Nat.lt_succ_of_lt (below tag old))
        refine ⟨allocator.next :: fresh, ?_, one.append tables registration, ?_⟩
        · rw [appended, List.append_assoc, List.singleton_append]
        · intro tag member
          rcases List.mem_cons.mp member with rfl | later
          · exact Nat.le_refl _
          · have unmet : ¬ OntologyState.newDefinitions _ rest = [] :=
              fun known => registration.nothing_fresh known tag later
            have positive := List.length_pos_iff.mpr unmet
            have steps : (allocator.next + 1) % 2 ^ 32 = allocator.next + 1 :=
              Nat.mod_eq_of_lt (by omega)
            have bound := bounds tag later
            simp only [steps] at bound
            exact Nat.le_of_succ_le bound
      · have split : s.newDefinitions (definition :: rest) = s.newDefinitions rest := by
          simp [newDefinitions, named]
        have seen : Registration [definition] s s [] :=
          Registration.refl tables [definition] (by simpa using ⟨existing, named⟩)
        -- the counter is past the id of a name that is taken
        have same (more : s.newDefinitions rest ≠ []) : allocator.observe existing = allocator := by
          have below := (room (by rwa [split])).1
          have past : ¬ allocator.next ≤ existing :=
            Nat.not_le.mpr (below existing (tables.tag_of_name _ existing named))
          rw [IdAllocator.observe, if_neg past]
        obtain ⟨fresh, appended, registration, bounds⟩ :=
          ih s (allocator.observe existing) registered (skipped + 1) tables (by
            intro more
            rw [same more, ← split]
            exact room (by rwa [split]))
        refine ⟨fresh, appended, seen.append tables registration, ?_⟩
        intro tag member
        by_cases more : s.newDefinitions rest = []
        · exact absurd member (registration.nothing_fresh more tag)
        · rw [← same more]
          exact bounds tag member

def Listed (s : OntologyState) : Prop :=
  ∀ tag definition, s.tags.lookup tag = some definition →
    definition.implies.Nodup ∧ ∀ target, target ∈ definition.implies ↔ s.dag.TagEdge tag target

theorem listed_iff (s : OntologyState) (valid : s.dag.Valid) :
    s.Listed ↔ ∀ tag definition, s.tags.lookup tag = some definition →
      definition.implies.Perm (s.dag.directImplies tag) := by
  refine forall_congr' fun tag => forall_congr' fun definition => imp_congr_right fun _ => ?_
  obtain ⟨once, members⟩ := s.dag.direct_implies_spec valid tag
  constructor
  · rintro ⟨nodup, same⟩
    refine (List.perm_ext_iff_of_nodup nodup once).mpr fun target => ?_
    rw [same, members]
  · intro permuted
    refine ⟨permuted.nodup_iff.mpr once, fun target => ?_⟩
    rw [permuted.mem_iff, members]

theorem Tables.edge_ends {s : OntologyState} (tables : s.Tables) (a b : TagId)
    (edge : s.dag.TagEdge a b) : a ∈ s.tags ∧ b ∈ s.tags := by
  obtain ⟨i, j, left, right, -⟩ := (s.dag.tag_edge_iff tables.valid.toIndexed a b).mp edge
  exact ⟨(tables.nodes a).mp ((s.dag.is_node_iff a).mpr ⟨i, left⟩),
    (tables.nodes b).mp ((s.dag.is_node_iff b).mpr ⟨j, right⟩)⟩

/-- What the second phase does: the pairs become edges, and the definitions
follow the graph. -/
structure Implication (s after : OntologyState) (pairs : List (TagId × TagId)) : Prop where
  tables : after.Tables
  names : after.names = s.names
  relations : after.relations = s.relations
  records : after.installedModules = s.installedModules
  edges : ∀ a b, after.dag.TagEdge a b ↔ s.dag.TagEdge a b ∨ (a, b) ∈ pairs
  listed : s.Listed → after.Listed
  keyed : s.Keyed → after.Keyed

private theorem lookup_record_implies (tags : FMap TagId TagDefinition)
    (source target tag : TagId) :
    (recordImplies tags source target).lookup tag =
      (tags.lookup tag).map fun definition =>
        if tag = source ∧ target ∉ definition.implies then
          { definition with implies := definition.implies ++ [target] }
        else definition := by
  rw [recordImplies, lookup_update]
  by_cases same : tag = source
  · rw [if_pos same]
    rcases tags.lookup tag with _ | definition
    · rfl
    · by_cases present : target ∈ definition.implies
      · simp [present]
      · simp [present, same]
  · simp [same]

private theorem imply_one (topo : Toposort TagId) (s : OntologyState) (source target : TagId)
    (grown : ImplicationDag) (tables : s.Tables)
    (accepted : s.dag.addImplication topo source target = (.ok (), grown)) :
    Implication s { s with dag := grown, tags := recordImplies s.tags source target }
      [(source, target)] := by
  rcases s.dag.add_implication_cases topo source target tables.valid with
    ⟨err, refused, -⟩ | ⟨dag, ok, sourceNode, targetNode, -, valid, sameNodes, edges⟩
  · rw [refused] at accepted
    cases accepted
  rw [ok] at accepted
  obtain rfl : dag = grown := congrArg Prod.snd accepted
  have lookup (tag : TagId) := lookup_record_implies s.tags source target tag
  refine ⟨⟨valid, ?_, ?_⟩, rfl, rfl, rfl, ?_, ?_, ?_⟩
  · intro name tag
    rw [tables.named]
    simp only [lookup, Option.map_eq_some_iff, exists_exists_and_eq_and]
    refine exists_congr fun definition => and_congr_right fun _ => ?_
    split
    · rfl
    · rfl
  · intro tag
    have sameTags : tag ∈ recordImplies s.tags source target ↔ tag ∈ s.tags := by
      rw [← Finmap.lookup_isSome, ← Finmap.lookup_isSome, lookup, Option.isSome_map]
    rw [sameTags, ← tables.nodes, ImplicationDag.IsNode, ImplicationDag.IsNode, sameNodes]
  · intro a b
    rw [edges, List.mem_singleton, Prod.mk.injEq]
  · intro listed tag definition found
    obtain ⟨old, located, rfl⟩ := Option.map_eq_some_iff.mp ((lookup tag).symm.trans found)
    obtain ⟨once, members⟩ := listed tag old located
    by_cases grows : tag = source ∧ target ∉ old.implies
    · obtain ⟨rfl, absent⟩ := grows
      rw [if_pos ⟨rfl, absent⟩]
      refine ⟨List.nodup_append.mpr ⟨once, List.nodup_singleton target, ?_⟩, ?_⟩
      · intro x member y last same
        obtain rfl := List.mem_singleton.mp last
        exact absent (same ▸ member)
      · intro other
        rw [List.mem_append, List.mem_singleton, members, edges]
        simp
    · rw [if_neg grows]
      refine ⟨once, fun other => ?_⟩
      rw [members, edges]
      constructor
      · exact Or.inl
      · rintro (edge | ⟨rfl, rfl⟩)
        · exact edge
        · exact (members other).mp (by simpa using grows)
  · intro keyed tag definition found
    obtain ⟨old, located, rfl⟩ := Option.map_eq_some_iff.mp ((lookup tag).symm.trans found)
    have same := keyed tag old located
    split
    · exact same
    · exact same

private theorem Implication.append {s middle after : OntologyState}
    {first second : List (TagId × TagId)}
    (left : Implication s middle first) (right : Implication middle after second) :
    Implication s after (first ++ second) where
  tables := right.tables
  names := right.names.trans left.names
  relations := right.relations.trans left.relations
  records := right.records.trans left.records
  edges := by
    intro a b
    rw [right.edges, left.edges, List.mem_append, or_assoc]
  listed := fun listed => right.listed (left.listed listed)
  keyed := fun keyed => right.keyed (left.keyed keyed)

/-- The tags a list of pairs of names stands for. -/
def Resolves (names : FMap String TagId) (listed : List (String × String))
    (pairs : List (TagId × TagId)) : Prop :=
  List.Forall₂ (fun given pair => names.lookup given.1 = some pair.1 ∧
    names.lookup given.2 = some pair.2) listed pairs

private theorem install_implications_spec (topo : Toposort TagId)
    (implications : List (String × String))
    (s : OntologyState) (added all : List (TagId × TagId)) (tables : s.Tables)
    (ok : (installImplications topo implications s added).2 = .ok all) :
    ∃ pairs, all = added ++ pairs ∧
      Resolves s.names implications pairs ∧
      Implication s (installImplications topo implications s added).1 pairs := by
  induction implications generalizing s added with
  | nil =>
      obtain rfl : added = all := Except.ok.inj ok
      refine ⟨[], (List.append_nil added).symm, List.Forall₂.nil, tables, rfl, rfl, rfl, ?_, id, id⟩
      simp [installImplications]
  | cons implication rest ih =>
      obtain ⟨sourceName, targetName⟩ := implication
      rw [installImplications] at ok ⊢
      rcases sourceFound : s.names.lookup sourceName with _ | source
      · simp [sourceFound] at ok
      rcases targetFound : s.names.lookup targetName with _ | target
      · simp [sourceFound, targetFound] at ok
      simp only [sourceFound, targetFound] at ok ⊢
      rcases outcome : s.dag.addImplication topo source target with ⟨err | _, dag⟩
      · simp [outcome] at ok
      simp only [outcome] at ok ⊢
      have one := s.imply_one topo source target dag tables outcome
      obtain ⟨pairs, appended, resolved, implied⟩ := ih _ (added ++ [(source, target)]) one.tables ok
      refine ⟨(source, target) :: pairs, ?_, ?_, one.append implied⟩
      · rw [appended, List.append_assoc, List.singleton_append]
      · exact List.Forall₂.cons ⟨sourceFound, targetFound⟩ resolved

private theorem install_relations_spec (relations : List (String × TagRelation × String))
    (s : OntologyState) (added all : List (TagId × TagRelation × TagId))
    (ok : (installRelations relations s added).2 = .ok all) :
    ∃ edges, all = added ++ edges ∧
      List.Forall₂ (fun given edge => s.names.lookup given.1 = some edge.1 ∧
        given.2.1 = edge.2.1 ∧ s.names.lookup given.2.2 = some edge.2.2) relations edges ∧
      (installRelations relations s added).1.tags = s.tags ∧
      (installRelations relations s added).1.names = s.names ∧
      (installRelations relations s added).1.dag = s.dag ∧
      (installRelations relations s added).1.installedModules = s.installedModules ∧
      ∀ edge, edge ∈ (installRelations relations s added).1.relations ↔
        edge ∈ s.relations ∨ edge ∈ edges := by
  induction relations generalizing s added with
  | nil =>
      obtain rfl : added = all := Except.ok.inj ok
      refine ⟨[], (List.append_nil added).symm, List.Forall₂.nil, rfl, rfl, rfl, rfl, ?_⟩
      simp [installRelations]
  | cons relation rest ih =>
      obtain ⟨sourceName, kind, targetName⟩ := relation
      rw [installRelations] at ok ⊢
      by_cases refused : kind = .impliedBy
      · simp [refused] at ok
      rw [if_neg refused] at ok ⊢
      rcases sourceFound : s.names.lookup sourceName with _ | source
      · simp [sourceFound] at ok
      rcases targetFound : s.names.lookup targetName with _ | target
      · simp [sourceFound, targetFound] at ok
      simp only [sourceFound, targetFound] at ok ⊢
      obtain ⟨edges, appended, resolved, sameTags, sameNames, sameDag, sameRecords, members⟩ :=
        ih _ (added ++ [(source, kind, target)]) ok
      refine ⟨(source, kind, target) :: edges, ?_, ?_, sameTags, sameNames, sameDag, sameRecords, ?_⟩
      · rw [appended, List.append_assoc, List.singleton_append]
      · exact List.Forall₂.cons ⟨sourceFound, rfl, targetFound⟩ resolved
      · intro edge
        rw [members, List.mem_cons]
        exact Vec.mem_push_missing s.relations edges (source, kind, target) edge

/-- What a successful `install_inner` does: the tags `fresh` are added, the
listed implications and relations hold, and the record of the module lists what
was registered and everything its source lists. -/
structure Growth (bundle : OntologyModule) (s after : OntologyState) (fresh : List TagId)
    (pairs : List (TagId × TagId)) (triples : List (TagId × TagRelation × TagId)) : Prop where
  tables : after.Tables
  kept : ∀ name tag, s.names.lookup name = some tag → after.names.lookup name = some tag
  added : ∀ tag, tag ∈ fresh ↔ tag ∈ after.tags ∧ tag ∉ s.tags
  origin : ∀ name tag, after.names.lookup name = some tag → tag ∉ s.tags →
    s.names.lookup name = none ∧ name ∈ bundle.tags.map TagDefinition.name
  covers : ∀ definition ∈ bundle.tags, ∃ tag, after.names.lookup definition.name = some tag
  resolved : Resolves after.names bundle.implications pairs
  edges : ∀ a b, after.dag.TagEdge a b ↔ s.dag.TagEdge a b ∨ (a, b) ∈ pairs
  triplesResolved : List.Forall₂ (fun given edge => after.names.lookup given.1 = some edge.1 ∧
    given.2.1 = edge.2.1 ∧ after.names.lookup given.2.2 = some edge.2.2) bundle.relations triples
  relations : ∀ edge, edge ∈ after.relations ↔ edge ∈ s.relations ∨ edge ∈ triples
  listed : (∀ definition ∈ bundle.tags, definition.implies = []) → s.Listed → after.Listed
  keyed : s.Keyed → after.Keyed
  records : after.installedModules = s.installedModules.insert bundle.id
    { id := bundle.id
      version := bundle.version
      name := bundle.name
      installedTags := fresh
      installedImplications := pairs
      installedRelations := triples }

/-- A new definition without `implies` starts with no edge. -/
theorem Registration.listed {definitions : List TagDefinition} {s after : OntologyState}
    {fresh : List TagId} (registration : Registration definitions s after fresh)
    (tables : s.Tables) (bare : ∀ definition ∈ definitions, definition.implies = [])
    (listed : s.Listed) : after.Listed := by
  intro tag definition found
  rcases located : s.tags.lookup tag with _ | old
  · have new : tag ∉ s.tags := Finmap.lookup_eq_none.mp located
    obtain ⟨-, given, member, rfl⟩ := registration.origin tag definition found new
    simp only [bare given member, List.nodup_nil, List.not_mem_nil, false_iff, true_and]
    intro target edge
    exact new (tables.edge_ends tag target ((registration.edges tag target).mp edge)).1
  · have same := registration.kept tag old located
    rw [found] at same
    cases same
    obtain ⟨once, members⟩ := listed tag definition located
    refine ⟨once, fun target => ?_⟩
    rw [members, registration.edges]

theorem Registration.keyed {definitions : List TagDefinition} {s after : OntologyState}
    {fresh : List TagId} (registration : Registration definitions s after fresh)
    (keyed : s.Keyed) : after.Keyed := by
  intro tag definition found
  rcases located : s.tags.lookup tag with _ | old
  · obtain ⟨-, given, -, rfl⟩ :=
      registration.origin tag definition found (Finmap.lookup_eq_none.mp located)
    rfl
  · have same := registration.kept tag old located
    rw [found] at same
    cases same
    exact keyed tag definition located

theorem install_inner_growth (topo : Toposort TagId) (s : OntologyState) (bundle : OntologyModule)
    (allocator : IdAllocator) (res : InstallResult) (tables : s.Tables)
    (room : s.Room bundle.tags allocator)
    (ok : (s.installInner topo bundle allocator).2.1 = .ok res) :
    res.moduleId = bundle.id ∧
      ∃ fresh pairs triples,
        Growth bundle s (s.installInner topo bundle allocator).1 fresh pairs triples ∧
        ∀ tag ∈ fresh, allocator.next ≤ tag := by
  rw [installInner] at ok ⊢
  obtain ⟨fresh, registeredTags, registration, bounds⟩ :=
    register_tags_spec bundle.tags s allocator [] 0 tables room
  rcases registered : registerTags bundle.tags s allocator [] 0 with ⟨s₁, allocator₁, tags, skipped⟩
  rw [registered] at registeredTags registration
  obtain rfl : tags = fresh := registeredTags
  simp only [registered] at ok ⊢
  rcases implied : installImplications topo bundle.implications s₁ [] with ⟨s₂, err | implications⟩
  · simp [implied] at ok
  obtain ⟨pairs, samePairs, resolved, implication⟩ :=
    install_implications_spec topo bundle.implications s₁ [] implications registration.tables
      (by rw [implied])
  obtain rfl : implications = pairs := samePairs
  rw [implied] at implication
  simp only [implied] at ok ⊢
  rcases relation : installRelations bundle.relations s₂ [] with ⟨s₃, err | relations⟩
  · simp [relation] at ok
  obtain ⟨triples, sameTriples, triplesResolved, sameTags, sameNames, sameDag, sameRecords,
    members⟩ := install_relations_spec bundle.relations s₂ [] relations (by rw [relation])
  obtain rfl : relations = triples := sameTriples
  simp only [relation] at sameTags sameNames sameDag sameRecords members ok ⊢
  rcases checked : s₃.checkAxisInvariant with err | _
  · simp [checked] at ok
  simp only [checked, Except.ok.injEq] at ok ⊢
  subst ok
  refine ⟨rfl, tags, implications, relations, ?_, bounds⟩
  have finalTables : s₃.Tables := by
    refine ⟨?_, ?_, ?_⟩
    · rw [sameDag]
      exact implication.tables.valid
    · rw [sameNames, sameTags]
      exact implication.tables.named
    · rw [sameDag, sameTags]
      exact implication.tables.nodes
  have finalNames : s₃.names = s₁.names := sameNames.trans implication.names
  have finalRecords : s₃.installedModules = s.installedModules :=
    sameRecords.trans (implication.records.trans registration.records)
  have finalTags (tag : TagId) : tag ∈ s₃.tags ↔ tag ∈ s₁.tags := by
    rw [finalTables.mem_iff_named, finalNames, ← registration.tables.mem_iff_named]
  exact
    { tables := ⟨finalTables.valid, finalTables.named, finalTables.nodes⟩
      kept := by
        intro name tag found
        simp only [finalNames]
        exact registration.name_kept tables name tag found
      added := by
        intro tag
        rw [registration.added, finalTags]
      origin := by
        intro name tag found new
        simp only [finalNames] at found
        obtain ⟨definition, located, rfl⟩ := (registration.tables.named name tag).mp found
        obtain ⟨free, given, member, same⟩ := registration.origin tag definition located new
        exact ⟨free, List.mem_map.mpr ⟨given, member, by rw [same]⟩⟩
      covers := by
        intro definition member
        simp only [finalNames]
        exact registration.covers definition member
      resolved := by
        simp only [finalNames]
        exact resolved
      edges := by
        intro a b
        simp only [sameDag]
        rw [implication.edges, registration.edges]
      triplesResolved := by
        simp only [sameNames]
        exact triplesResolved
      relations := by
        intro edge
        rw [members, implication.relations, registration.relations]
      listed := by
        intro bare listed tag definition found
        simp only [sameTags] at found
        simp only [sameDag]
        exact implication.listed (registration.listed tables bare listed) tag definition found
      keyed := by
        intro keyed tag definition found
        simp only [sameTags] at found
        exact implication.keyed (registration.keyed keyed) tag definition found
      records := by
        simp only [finalRecords] }

theorem install_growth (topo : Toposort TagId) (s : OntologyState) (bundle : OntologyModule)
    (allocator : IdAllocator) (res : InstallResult) (tables : s.Tables)
    (room : s.Room bundle.tags allocator) (ok : (s.install topo bundle allocator).2.1 = .ok res) :
    s.installedModules.lookup bundle.id = none ∧
      ∃ fresh pairs triples,
        Growth bundle s (s.install topo bundle allocator).1 fresh pairs triples ∧
        ∀ tag ∈ fresh, allocator.next ≤ tag := by
  rw [install] at ok ⊢
  by_cases taken : (s.installedModules.lookup bundle.id).isSome
  · simp [taken] at ok
  · rw [if_neg taken] at ok ⊢
    refine ⟨by simpa using taken, ?_⟩
    have inner := s.install_inner_growth topo bundle allocator
    rcases outcome : s.installInner topo bundle allocator with ⟨s', err | made, allocator'⟩
    · simp [outcome] at ok
    · simp only [outcome] at inner ok ⊢
      exact (inner made tables room rfl).2

def withoutRecord (s : OntologyState) (id : ModuleId) : OntologyState :=
  { s with installedModules := s.installedModules.erase id }

theorem upgrade_growth (topo : Toposort TagId) (s : OntologyState) (bundle : OntologyModule)
    (res : InstallResult) (tables : s.Tables) (room : s.Room bundle.tags s.freshAllocator)
    (ok : (s.upgrade topo bundle).2 = .ok res) :
    ∃ previous fresh pairs triples middle,
      s.installedModules.lookup bundle.id = some previous ∧
      s.removedName previous bundle = none ∧
      Growth bundle (s.withoutRecord bundle.id) middle fresh pairs triples ∧
      (∀ tag ∈ fresh, s.freshAllocator.next ≤ tag) ∧
      (s.upgrade topo bundle).1 =
        { middle with
          installedModules := update middle.installedModules bundle.id (mergeRecords previous) } := by
  rw [upgrade] at ok ⊢
  rcases found : s.installedModules.lookup bundle.id with _ | previous
  · simp [found] at ok
  simp only [found] at ok ⊢
  rcases removed : s.removedName previous bundle with _ | name
  · simp only [removed] at ok ⊢
    rcases changed : bundle.tags.find? s.changesSemantics with _ | definition
    · simp only [changed] at ok ⊢
      have bareTables : (s.withoutRecord bundle.id).Tables :=
        ⟨tables.valid, tables.named, tables.nodes⟩
      have inner := (s.withoutRecord bundle.id).install_inner_growth topo bundle
        (s.withoutRecord bundle.id).freshAllocator
      simp only [withoutRecord] at inner bareTables ⊢
      rcases outcome : installInner topo
          { s with installedModules := s.installedModules.erase bundle.id } bundle
          (freshAllocator { s with installedModules := s.installedModules.erase bundle.id }) with
        ⟨middle, err | made, allocator'⟩
      · simp [outcome] at ok
      · simp only [outcome] at inner ok ⊢
        obtain ⟨named, fresh, pairs, triples, growth, bounds⟩ :=
          inner made bareTables room rfl
        exact ⟨previous, fresh, pairs, triples, middle, rfl, removed, growth, bounds, by rw [named]⟩
    · simp [changed] at ok
  · simp [removed] at ok

def RemovesRelation (s : OntologyState) (id : ModuleId) (edge : TagId × TagRelation × TagId) :
    Prop :=
  ∃ record, s.installedModules.lookup id = some record ∧ edge ∈ record.installedRelations ∧
    ¬ claimed (s.installedModules.erase id) ModuleRecord.installedRelations edge

/-- What a scrub does to the tables, in terms of the records before it. -/
structure Shrinkage (s : OntologyState) (id : ModuleId) (after : OntologyState) : Prop where
  tables : after.Tables
  names : ∀ name tag, after.names.lookup name = some tag ↔
    s.names.lookup name = some tag ∧ ¬ s.RemovesTag id tag
  definitions : ∀ tag definition, after.tags.lookup tag = some definition →
    ∃ old, s.tags.lookup tag = some old ∧ definition.id = old.id ∧
      definition.implies.Sublist old.implies ∧
      ∀ target, target ∈ definition.implies ↔
        target ∈ old.implies ∧ ¬ s.RemovesImplication id tag target
  edges : ∀ a b, after.dag.TagEdge a b ↔ s.SurvivingEdge id a b
  relations : ∀ edge, edge ∈ after.relations ↔
    edge ∈ s.relations ∧ ¬ s.RemovesRelation id edge
  records : after.installedModules = s.installedModules.erase id

private theorem scrub_implications_tables (records : FMap ModuleId ModuleRecord)
    (edges : List (TagId × TagId)) (s : OntologyState) (tables : s.Tables) :
    (edges.foldl (scrubImplication records) s).Tables ∧
      (edges.foldl (scrubImplication records) s).names = s.names ∧
      (edges.foldl (scrubImplication records) s).relations = s.relations ∧
      (edges.foldl (scrubImplication records) s).installedModules = s.installedModules ∧
      ∀ tag, (edges.foldl (scrubImplication records) s).tags.lookup tag =
        (s.tags.lookup tag).map fun definition =>
          { definition with
            implies := definition.implies.filter fun target =>
              ¬ ((tag, target) ∈ edges ∧
                ¬ claimed records ModuleRecord.installedImplications (tag, target)) } := by
  induction edges generalizing s with
  | nil =>
      refine ⟨tables, rfl, rfl, rfl, ?_⟩
      simp
  | cons edge rest ih =>
      rw [List.foldl_cons]
      by_cases shared : claimed records ModuleRecord.installedImplications edge
      · have skip (tag target : TagId) :
            ((tag, target) ∈ edge :: rest ∧
                ¬ claimed records ModuleRecord.installedImplications (tag, target)) ↔
              ((tag, target) ∈ rest ∧
                ¬ claimed records ModuleRecord.installedImplications (tag, target)) := by
          rw [List.mem_cons]
          by_cases same : (tag, target) = edge
          · simp [same, shared]
          · simp [same]
        rw [scrubImplication, if_pos shared]
        simp only [skip]
        exact ih s tables
      · obtain ⟨valid, sameNodes, -⟩ := s.dag.remove_implication_spec edge.1 edge.2 tables.valid
        have one : (scrubImplication records s edge).Tables ∧
            (scrubImplication records s edge).names = s.names ∧
            (scrubImplication records s edge).relations = s.relations ∧
            (scrubImplication records s edge).installedModules = s.installedModules := by
          rw [scrubImplication, if_neg shared]
          refine ⟨⟨valid, ?_, ?_⟩, rfl, rfl, rfl⟩
          · intro name tag
            rw [tables.named]
            simp only [lookup_update]
            split
            · simp only [Option.map_eq_some_iff, exists_exists_and_eq_and]
            · rfl
          · intro tag
            have sameTags : tag ∈ update s.tags edge.1 (fun definition =>
                { definition with implies := definition.implies.filter (· ≠ edge.2) }) ↔
                tag ∈ s.tags := by
              rw [← Finmap.lookup_isSome, ← Finmap.lookup_isSome, lookup_update]
              split
              · rw [Option.isSome_map]
              · rfl
            rw [sameTags, ← tables.nodes, ImplicationDag.IsNode, ImplicationDag.IsNode, sameNodes]
        obtain ⟨restTables, restNames, restRelations, restRecords, restTags⟩ :=
          ih (scrubImplication records s edge) one.1
        refine ⟨restTables, restNames.trans one.2.1, restRelations.trans one.2.2.1,
          restRecords.trans one.2.2.2, ?_⟩
        intro tag
        rw [restTags, scrubImplication, if_neg shared]
        simp only [lookup_update]
        have drop (target : TagId) :
            ((tag, target) ∈ edge :: rest ∧
                ¬ claimed records ModuleRecord.installedImplications (tag, target)) ↔
              (tag = edge.1 ∧ target = edge.2) ∨ ((tag, target) ∈ rest ∧
                ¬ claimed records ModuleRecord.installedImplications (tag, target)) := by
          rw [List.mem_cons, Prod.ext_iff]
          by_cases same : tag = edge.1 ∧ target = edge.2
          · obtain ⟨rfl, rfl⟩ := same
            simp [shared]
          · simp [same]
        simp only [drop]
        by_cases same : tag = edge.1
        · rw [if_pos same, Option.map_map]
          refine congrArg (fun change => Option.map change (s.tags.lookup tag)) ?_
          funext definition
          simp only [Function.comp_apply, List.filter_filter, same, true_and]
          congr 1
          refine List.filter_congr fun target _ => ?_
          rw [Bool.and_comm]
          simp
        · simp [same]

private theorem scrub_relations_members (records : FMap ModuleId ModuleRecord)
    (edges : List (TagId × TagRelation × TagId)) (s : OntologyState) :
    (edges.foldl (scrubRelation records) s).names = s.names ∧
      (edges.foldl (scrubRelation records) s).installedModules = s.installedModules ∧
      ∀ edge, edge ∈ (edges.foldl (scrubRelation records) s).relations ↔
        edge ∈ s.relations ∧
          ¬ (edge ∈ edges ∧ ¬ claimed records ModuleRecord.installedRelations edge) := by
  induction edges generalizing s with
  | nil => exact ⟨rfl, rfl, by simp⟩
  | cons first rest ih =>
      rw [List.foldl_cons]
      obtain ⟨restNames, restRecords, restMembers⟩ := ih (scrubRelation records s first)
      by_cases shared : claimed records ModuleRecord.installedRelations first
      · rw [scrubRelation, if_pos shared] at restNames restRecords restMembers ⊢
        refine ⟨restNames, restRecords, ?_⟩
        intro edge
        rw [restMembers, List.mem_cons]
        by_cases same : edge = first
        · simp [same, shared]
        · simp [same]
      · rw [scrubRelation, if_neg shared] at restNames restRecords restMembers ⊢
        refine ⟨restNames, restRecords, ?_⟩
        intro edge
        rw [restMembers, List.mem_cons]
        by_cases same : edge = first
        · simp [same, shared]
        · simp [same]

private theorem scrub_tags_tables (records : FMap ModuleId ModuleRecord) (tags : List TagId)
    (s : OntologyState × Nat) (tables : s.1.Tables) :
    (tags.foldl (scrubTag records) s).1.Tables ∧
      (∀ name tag, (tags.foldl (scrubTag records) s).1.names.lookup name = some tag ↔
        s.1.names.lookup name = some tag ∧
          ¬ (tag ∈ tags ∧ ¬ claimed records ModuleRecord.installedTags tag)) ∧
      (∀ tag definition, (tags.foldl (scrubTag records) s).1.tags.lookup tag = some definition →
        s.1.tags.lookup tag = some definition) ∧
      (tags.foldl (scrubTag records) s).1.relations = s.1.relations ∧
      (tags.foldl (scrubTag records) s).1.installedModules = s.1.installedModules := by
  induction tags generalizing s with
  | nil => exact ⟨tables, by simp, fun _ _ found => found, rfl, rfl⟩
  | cons first rest ih =>
      rw [List.foldl_cons]
      by_cases shared : claimed records ModuleRecord.installedTags first
      · rw [scrubTag, if_pos shared]
        obtain ⟨restTables, restNames, restTags, restRelations, restRecords⟩ := ih s tables
        refine ⟨restTables, ?_, restTags, restRelations, restRecords⟩
        intro name tag
        rw [restNames, List.mem_cons]
        by_cases same : tag = first
        · simp [same, shared]
        · simp [same]
      · obtain ⟨valid, nodes, -⟩ := s.1.dag.remove_tag_spec first tables.valid
        have names (name : String) (tag : TagId) :
            (scrubTag records s first).1.names.lookup name = some tag ↔
              s.1.names.lookup name = some tag ∧ tag ≠ first := by
          rw [scrubTag, if_neg shared]
          rcases located : s.1.tags.lookup first with _ | definition
          · refine ⟨fun found => ⟨found, ?_⟩, And.left⟩
            rintro rfl
            exact Finmap.lookup_eq_none.mp located (tables.tag_of_name name tag found)
          · have own := tables.name_of_tag first definition located
            simp only [lookup_erase_eq]
            by_cases same : name = definition.name
            · subst same
              simp [own, eq_comm]
            · simp only [if_neg same]
              refine ⟨fun found => ⟨found, ?_⟩, And.left⟩
              rintro rfl
              exact same (tables.same_name _ _ tag found own)
        have one : (scrubTag records s first).1.Tables := by
          refine ⟨?_, ?_, ?_⟩
          · simpa only [scrubTag, if_neg shared] using valid
          · intro name tag
            rw [names, tables.named]
            simp only [scrubTag, if_neg shared, lookup_erase_eq]
            by_cases same : tag = first
            · simp [same]
            · simp [same]
          · intro tag
            simp only [scrubTag, if_neg shared]
            rw [nodes, tables.nodes, Finmap.mem_erase, and_comm]
        obtain ⟨restTables, restNames, restTags, restRelations, restRecords⟩ :=
          ih (scrubTag records s first) one
        refine ⟨restTables, ?_, ?_, ?_, ?_⟩
        · intro name tag
          rw [restNames, names, List.mem_cons]
          by_cases same : tag = first
          · simp [same, shared]
          · simp [same]
        · intro tag definition found
          have located := restTags tag definition found
          simp only [scrubTag, if_neg shared, lookup_erase_eq] at located
          split at located
          · cases located
          · exact located
        · rw [restRelations, scrubTag, if_neg shared]
        · rw [restRecords, scrubTag, if_neg shared]

theorem scrub_missing (s : OntologyState) (id : ModuleId)
    (missing : s.installedModules.lookup id = none) : (s.scrub id).1 = s := by
  simp [scrub, missing]

theorem scrub_shrinkage (s : OntologyState) (id : ModuleId) (record : ModuleRecord)
    (tables : s.Tables) (found : s.installedModules.lookup id = some record) :
    Shrinkage s id (s.scrub id).1 := by
  let records := s.installedModules.erase id
  let s₁ : OntologyState := s.withoutRecord id
  let s₂ := record.installedImplications.foldl (scrubImplication records) s₁
  let s₃ := record.installedRelations.foldl (scrubRelation records) s₂
  have final : (s.scrub id).1 = (record.installedTags.foldl (scrubTag records) (s₃, 0)).1 := by
    simp [scrub, found, s₃, s₂, s₁, records, withoutRecord]
  have removesTag (tag : TagId) : s.RemovesTag id tag ↔
      tag ∈ record.installedTags ∧ ¬ claimed records ModuleRecord.installedTags tag := by
    simp [RemovesTag, found, records]
  have removesImplication (a b : TagId) : s.RemovesImplication id a b ↔
      (a, b) ∈ record.installedImplications ∧
        ¬ claimed records ModuleRecord.installedImplications (a, b) := by
    simp [RemovesImplication, found, records]
  have removesRelation (edge : TagId × TagRelation × TagId) : s.RemovesRelation id edge ↔
      edge ∈ record.installedRelations ∧
        ¬ claimed records ModuleRecord.installedRelations edge := by
    simp [RemovesRelation, found, records]
  have tables₁ : s₁.Tables := ⟨tables.valid, tables.named, tables.nodes⟩
  obtain ⟨tables₂, names₂, relations₂, records₂, tags₂⟩ :=
    scrub_implications_tables records record.installedImplications s₁ tables₁
  obtain ⟨dag₃, tags₃⟩ := scrub_relations_frame records record.installedRelations s₂
  obtain ⟨names₃, records₃, relations₃⟩ :=
    scrub_relations_members records record.installedRelations s₂
  have tables₃ : s₃.Tables := by
    refine ⟨?_, ?_, ?_⟩
    · rw [dag₃]
      exact tables₂.valid
    · rw [names₃, tags₃]
      exact tables₂.named
    · rw [dag₃, tags₃]
      exact tables₂.nodes
  obtain ⟨tables₄, names₄, tags₄, relations₄, records₄⟩ :=
    scrub_tags_tables records record.installedTags (s₃, 0) tables₃
  refine ⟨?_, ?_, ?_, (s.scrub_spec id tables.valid).2.1, ?_, ?_⟩
  · rw [final]
    exact tables₄
  · intro name tag
    rw [final, names₄, names₃, names₂, removesTag]
    rfl
  · intro tag definition located
    rw [final] at located
    have earlier := tags₄ tag definition located
    rw [tags₃, tags₂] at earlier
    obtain ⟨old, before, rfl⟩ := Option.map_eq_some_iff.mp earlier
    refine ⟨old, before, rfl, List.filter_sublist, fun target => ?_⟩
    rw [removesImplication, List.mem_filter, decide_eq_true_eq]
  · intro edge
    rw [final, relations₄, relations₃, relations₂, removesRelation]
    rfl
  · rw [final, records₄, records₃, records₂]
    rfl

end Mimisbrunnr.Ontology.OntologyState
