import Mathlib.Logic.Equiv.Finset
import Mimisbrunnr.Lib.Multimap
import Mimisbrunnr.Watch.RegionRoundTrip

/-!
# The inverted index

Registration, removal and loading link a subscription under the tags that its
query names; a refresh links it also under the tags that imply one of its `isA`
tags. The index stays exact as long as the two agree.
-/

namespace Mimisbrunnr.Watch

set_option autoImplicit false

open Mimisbrunnr.Index
open Mimisbrunnr.Lib
open Mimisbrunnr.Lib.Digraph
open Mimisbrunnr.Lib.FiniteMap
open Mimisbrunnr.Lib.Multimap
open Mimisbrunnr.Ontology
open Mimisbrunnr.Storage
open Mimisbrunnr.Types

def ownIsA : Query → List TagId
  | .isA tag => [tag]
  | _ => []

/-- The tags that a query names in an `isA` clause. -/
def isATags (query : Query) : List TagId := query.collect ownIsA

def Below (ontology : OntologyState) (top tag : TagId) : Prop :=
  tag ∈ ontology.dag.tags ∧ tag ≠ top ∧ ontology.dag.isA tag top = true

def Indexed (ontology : OntologyState) (query : Query) (tag : TagId) : Prop :=
  tag ∈ query.tags ∨ ∃ top ∈ isATags query, Below ontology top tag

theorem mem_tags_and (children : List Query) (tag : TagId) :
    tag ∈ (Query.and children).tags ↔ ∃ child ∈ children, tag ∈ child.tags :=
  Query.mem_collect_and Query.ownTags children rfl tag

theorem mem_tags_or (children : List Query) (tag : TagId) :
    tag ∈ (Query.or children).tags ↔ ∃ child ∈ children, tag ∈ child.tags :=
  Query.mem_collect_or Query.ownTags children rfl tag

private theorem indexed_and (ontology : OntologyState) (children : List Query) (tag : TagId) :
    Indexed ontology (.and children) tag ↔ ∃ child ∈ children, Indexed ontology child tag := by
  simp only [Indexed, mem_tags_and, isATags, Query.mem_collect_and ownIsA children rfl]
  grind

private theorem indexed_or (ontology : OntologyState) (children : List Query) (tag : TagId) :
    Indexed ontology (.or children) tag ↔ ∃ child ∈ children, Indexed ontology child tag := by
  simp only [Indexed, mem_tags_or, isATags, Query.mem_collect_or ownIsA children rfl]
  grind

/-- A pass over a query that adds certain tags to an ordered set. -/
structure Adds (pass : List TagId → List TagId) (added : TagId → Prop) : Prop where
  members : ∀ out tag, tag ∈ pass out ↔ added tag ∨ tag ∈ out
  increasing : ∀ out, out.Pairwise (· < ·) → (pass out).Pairwise (· < ·)

theorem adds_insert (named : TagId) : Adds (SortedSet.insert named) (· = named) where
  members out tag := SortedSet.mem_insert named tag out
  increasing out := SortedSet.increasing_insert named out

theorem Adds.congr {pass : List TagId → List TagId} {added other : TagId → Prop}
    (adds : Adds pass added) (same : ∀ tag, added tag ↔ other tag) : Adds pass other where
  members out tag := by rw [adds.members, same]
  increasing := adds.increasing

theorem adds_nothing : Adds (fun out => out) (fun _ => False) where
  members out tag := by simp
  increasing _ increasing := increasing

theorem Adds.andThen {first second : List TagId → List TagId} {early late : TagId → Prop}
    (left : Adds first early) (right : Adds second late) :
    Adds (fun out => second (first out)) (fun tag => early tag ∨ late tag) where
  members out tag := by
    rw [right.members, left.members, or_left_comm, or_assoc]
  increasing out increasing := right.increasing _ (left.increasing out increasing)

private theorem adds_list (tags : List TagId) :
    Adds (fun out => tags.foldl (fun set tag => SortedSet.insert tag set) out) (· ∈ tags) := by
  induction tags with
  | nil => exact adds_nothing.congr fun tag => by simp
  | cons named tags ih =>
      exact ((adds_insert named).andThen ih).congr fun tag => List.mem_cons.symm

/-- Passes over the children one after another. -/
theorem adds_children (pass : List TagId → Query → List TagId)
    (passAll : List TagId → List Query → List TagId) (added : Query → TagId → Prop)
    (stop : ∀ out, passAll out [] = out)
    (next : ∀ out child rest, passAll out (child :: rest) = passAll (pass out child) rest)
    (children : List Query) (each : ∀ child ∈ children, Adds (pass · child) (added child)) :
    Adds (passAll · children) fun tag => ∃ child ∈ children, added child tag := by
  induction children with
  | nil =>
      simp only [stop]
      exact adds_nothing.congr fun tag => by simp
  | cons child children ih =>
      have rest := ih fun other member => each other (List.mem_cons_of_mem child member)
      simp only [next]
      exact ((each child List.mem_cons_self).andThen rest).congr fun tag =>
        (List.exists_mem_cons_iff (fun other => added other tag) child children).symm

theorem walk_adds (query : Query) : Adds (walk · query) (· ∈ query.tags) := by
  induction query using Query.tree_induction with
  | hasTag named => exact (adds_insert named).congr fun tag => List.mem_singleton.symm
  | hasAttr key op value => exact (adds_insert key).congr fun tag => List.mem_singleton.symm
  | related predicate target =>
      exact (adds_insert predicate).congr fun tag => List.mem_singleton.symm
  | and children ih =>
      have all := adds_children walk walkAll (fun child tag => tag ∈ child.tags) (fun _ => rfl)
        (fun _ _ _ => rfl) children ih
      exact all.congr fun tag => (mem_tags_and children tag).symm
  | or children ih =>
      have all := adds_children walk walkAll (fun child tag => tag ∈ child.tags) (fun _ => rfl)
        (fun _ _ _ => rfl) children ih
      exact all.congr fun tag => (mem_tags_or children tag).symm
  | not child ih => exact ih
  | isA named => exact (adds_insert named).congr fun tag => List.mem_singleton.symm

private theorem walk_is_a_adds (ontology : OntologyState) (named : TagId) :
    Adds (walkWithOntology ontology · (.isA named)) (Indexed ontology (.isA named)) := by
  have below := adds_list
    (ontology.dag.tags.filter fun other => other ≠ named && ontology.dag.isA other named)
  apply ((adds_insert named).andThen below).congr
  intro tag
  simp [Indexed, Below, isATags, Query.tags, Query.collect, Query.ownTags, ownIsA]

private theorem indexed_leaf (ontology : OntologyState) (query : Query) (tag : TagId)
    (plain : isATags query = []) : tag ∈ query.tags ↔ Indexed ontology query tag := by
  simp [Indexed, plain]

theorem walk_with_ontology_adds (ontology : OntologyState) (query : Query) :
    Adds (walkWithOntology ontology · query) (Indexed ontology query) := by
  induction query using Query.tree_induction with
  | hasTag named =>
      exact (walk_adds (.hasTag named)).congr fun tag => indexed_leaf ontology _ tag rfl
  | hasAttr key op value =>
      exact (walk_adds (.hasAttr key op value)).congr fun tag => indexed_leaf ontology _ tag rfl
  | related predicate target =>
      exact (walk_adds (.related predicate target)).congr fun tag =>
        indexed_leaf ontology _ tag rfl
  | and children ih =>
      have all := adds_children (walkWithOntology ontology) (walkAllWithOntology ontology)
        (Indexed ontology) (fun _ => rfl) (fun _ _ _ => rfl) children ih
      exact all.congr fun tag => (indexed_and ontology children tag).symm
  | or children ih =>
      have all := adds_children (walkWithOntology ontology) (walkAllWithOntology ontology)
        (Indexed ontology) (fun _ => rfl) (fun _ _ _ => rfl) children ih
      exact all.congr fun tag => (indexed_or ontology children tag).symm
  | not child ih => exact ih
  | isA named => exact walk_is_a_adds ontology named

private theorem mem_extract_tags (query : Query) (tag : TagId) :
    tag ∈ extractTags query ↔ tag ∈ query.tags := by
  have members := (walk_adds query).members [] tag
  simpa [extractTags] using members

private theorem extract_tags_distinct (query : Query) : (extractTags query).Nodup :=
  ((walk_adds query).increasing [] List.Pairwise.nil).imp fun less => ne_of_lt less

private theorem mem_tags_for_indexing (query : Query) (ontology : OntologyState) (tag : TagId) :
    tag ∈ tagsForIndexing query ontology ↔ Indexed ontology query tag := by
  have members := (walk_with_ontology_adds ontology query).members [] tag
  simpa [tagsForIndexing] using members

private theorem tags_for_indexing_distinct (query : Query) (ontology : OntologyState) :
    (tagsForIndexing query ontology).Nodup :=
  ((walk_with_ontology_adds ontology query).increasing [] List.Pairwise.nil).imp
    fun less => ne_of_lt less

/-- Every tag that implies an `isA` tag of the query is named in the query. -/
def Covered (ontology : OntologyState) (query : Query) : Prop :=
  ∀ top ∈ isATags query, ∀ tag, Below ontology top tag → tag ∈ query.tags

theorem covered_iff_same_tags (ontology : OntologyState) (query : Query) :
    Covered ontology query ↔
      ∀ tag, tag ∈ extractTags query ↔ tag ∈ tagsForIndexing query ontology := by
  simp only [mem_extract_tags, mem_tags_for_indexing, Indexed]
  constructor
  · intro covered tag
    constructor
    · exact Or.inl
    · intro indexed
      rcases indexed with named | below
      · exact named
      · obtain ⟨top, clause, implies⟩ := below
        exact covered top clause tag implies
  · intro same top clause tag below
    exact (same tag).mpr (Or.inr ⟨top, clause, below⟩)

theorem count_extract_tags (ontology : OntologyState) (query : Query)
    (covered : Covered ontology query) (tag : TagId) :
    (extractTags query).count tag = if tag ∈ tagsForIndexing query ontology then 1 else 0 := by
  rw [(extract_tags_distinct query).count]
  exact if_congr ((covered_iff_same_tags ontology query).mp covered tag) rfl rfl

namespace SubscriptionEngine

/-- How often the list of a tag should hold an identifier. -/
def expected (s : SubscriptionEngine) (ontology : OntologyState) (tag : TagId)
    (id : SubscriptionId) : Nat :=
  match s.subscriptions.lookup id with
  | some sub => if tag ∈ tagsForIndexing sub.query ontology then 1 else 0
  | none => 0

def Exact (s : SubscriptionEngine) (ontology : OntologyState) : Prop :=
  ∀ tag id, ((s.tagToSubs.lookup tag).getD []).count id = s.expected ontology tag id

private theorem new_exact (ontology : OntologyState) : new.Exact ontology := by
  intro tag id
  rfl

private theorem register_links (s : SubscriptionEngine) (name : String) (query : Query)
    (interest : ChangeInterest) (retention : Retention) (initialResult : Finset Nat)
    (currentLsn : Nat) :
    (s.register name query interest retention initialResult currentLsn).1.tagToSubs =
      pushAll s.tagToSubs ((s.nextId + 1) % 2 ^ 64) (extractTags query) := rfl

private theorem register_exact (s : SubscriptionEngine) (ontology : OntologyState) (name : String)
    (query : Query) (interest : ChangeInterest) (retention : Retention)
    (initialResult : Finset Nat) (currentLsn : Nat) (exact : s.Exact ontology)
    (fresh : s.subscriptions.lookup ((s.nextId + 1) % 2 ^ 64) = none)
    (covered : Covered ontology query) :
    (s.register name query interest retention initialResult currentLsn).1.Exact ontology := by
  intro tag id
  have before : (held s.tagToSubs tag).count id = s.expected ontology tag id := exact tag id
  rw [register_links]
  show (held _ tag).count id = _
  rw [count_push_all, before]
  by_cases same : id = (s.nextId + 1) % 2 ^ 64
  · subst same
    rw [if_pos rfl, count_extract_tags ontology query covered, expected, fresh, Nat.zero_add]
    simp only [expected, register, Finmap.lookup_insert]
  · rw [if_neg same, Nat.add_zero, expected, expected]
    simp only [register, Finmap.lookup_insert_of_ne _ same]

private theorem drop_tag_link_eq (id : SubscriptionId) :
    (fun index tag => dropTagLink index id tag) = fun index tag => drop index id tag := by
  funext index tag
  unfold dropTagLink drop
  cases index.lookup tag <;> rfl

private theorem drop_links_eq (index : FMap TagId (List SubscriptionId)) (id : SubscriptionId)
    (tags : List TagId) :
    tags.foldl (fun index tag => dropTagLink index id tag) index = dropAll index id tags := by
  rw [drop_tag_link_eq]
  rfl

private theorem unregister_exact (s after : SubscriptionEngine) (ontology : OntologyState)
    (id : SubscriptionId) (exact : s.Exact ontology)
    (covered : ∀ sub, s.subscriptions.lookup id = some sub → Covered ontology sub.query)
    (ok : s.unregister id = .ok after) : after.Exact ontology := by
  unfold unregister at ok
  split at ok
  · cases ok
  · next sub found =>
      cases ok
      intro tag other
      have before : (held s.tagToSubs tag).count other = s.expected ontology tag other :=
        exact tag other
      show (held _ tag).count other = _
      rw [drop_links_eq, count_drop_all, before]
      by_cases same : other = id
      · subst same
        simp only [expected, Finmap.lookup_erase, found, true_and]
        have agree := (covered_iff_same_tags ontology sub.query).mp (covered sub found) tag
        split
        · rfl
        · next absent => rw [if_neg fun indexed => absent (agree.mpr indexed)]
      · rw [if_neg fun both => same both.1, expected, expected]
        simp only [Finmap.lookup_erase_ne same]

/-- An index built anew, with one group of tags for each subscription. -/
theorem groups_exact (s : SubscriptionEngine) (ontology : OntologyState)
    (groups : List (SubscriptionId × List TagId))
    (links : s.tagToSubs = pushGroups ∅ groups) (distinct : (groups.map Prod.fst).Nodup)
    (complete : ∀ id sub, s.subscriptions.lookup id = some sub → ∃ tags, (id, tags) ∈ groups)
    (grouped : ∀ id tags, (id, tags) ∈ groups → ∃ sub, s.subscriptions.lookup id = some sub ∧
      ∀ tag, tags.count tag = if tag ∈ tagsForIndexing sub.query ontology then 1 else 0) :
    s.Exact ontology := by
  intro tag id
  rw [links]
  show (held _ tag).count id = _
  cases found : s.subscriptions.lookup id with
  | none =>
      have absent : id ∉ groups.map Prod.fst := by
        intro present
        obtain ⟨group, member, same⟩ := List.mem_map.mp present
        obtain ⟨sub, located, _⟩ := grouped group.1 group.2 member
        rw [same, found] at located
        cases located
      rw [count_push_groups_absent groups ∅ id tag absent, expected, found]
      rfl
  | some sub =>
      obtain ⟨tags, member⟩ := complete id sub found
      obtain ⟨other, located, counted⟩ := grouped id tags member
      rw [found] at located
      cases located
      rw [count_push_groups groups ∅ distinct id tags member tag, expected, found, counted]
      simp

/-- The tags that a refresh links a subscription under. -/
def refreshedTags (s : SubscriptionEngine) (ontology : OntologyState) (id : SubscriptionId) :
    List TagId :=
  match s.subscriptions.lookup id with
  | none => []
  | some sub => tagsForIndexing sub.query ontology

private theorem refresh_links (s : SubscriptionEngine) (ontology : OntologyState) :
    (s.refreshOntologyLinks ontology).tagToSubs =
      pushGroups ∅ (s.ids.map fun id => (id, s.refreshedTags ontology id)) := by
  rw [pushGroups, List.foldl_map]
  refine congrArg (fun link => List.foldl link ∅ s.ids) ?_
  funext index id
  rw [refreshedTags]
  cases s.subscriptions.lookup id <;> rfl

private theorem refresh_exact (s : SubscriptionEngine) (ontology : OntologyState) :
    (s.refreshOntologyLinks ontology).Exact ontology := by
  apply groups_exact _ ontology _ (s.refresh_links ontology)
  · rw [List.map_map]
    simpa [Function.comp_def] using s.ids_distinct
  · intro id sub found
    exact ⟨_, List.mem_map_of_mem ((s.mem_ids id).mpr ⟨sub, found⟩)⟩
  · intro id tags member
    obtain ⟨other, listed, same⟩ := List.mem_map.mp member
    cases same
    obtain ⟨sub, found⟩ := (s.mem_ids id).mp listed
    refine ⟨sub, found, ?_⟩
    intro tag
    rw [refreshedTags, found]
    exact (tags_for_indexing_distinct sub.query ontology).count

theorem load_ok (env : SubscriptionRegionEnv) (d : Device) (offset : Nat)
    (after : SubscriptionEngine) (ok : loadFromRegion env d offset = .ok after) :
    ∃ records, storedRecords env d offset = .ok records ∧
      fromRecords env.roaring records = .ok after := by
  unfold loadFromRegion at ok
  cases stored : storedRecords env d offset with
  | error err =>
      rw [stored] at ok
      cases ok
  | ok records =>
      rw [stored] at ok
      exact ⟨records, rfl, ok⟩

private theorem load_exact (env : SubscriptionRegionEnv) (d : Device) (offset : Nat)
    (ontology : OntologyState) (after : SubscriptionEngine)
    (ok : loadFromRegion env d offset = .ok after)
    (distinct : ∀ records, storedRecords env d offset = .ok records →
      (records.map PersistedSub.id).Nodup)
    (covered : ∀ records, storedRecords env d offset = .ok records →
      ∀ record ∈ records, Covered ontology record.query) : after.Exact ontology := by
  obtain ⟨records, stored, built⟩ := load_ok env d offset after ok
  have loaded := from_records_ok env.roaring records after built
  have unlike := distinct records stored
  apply groups_exact after ontology (records.map fun record => (record.id, extractTags record.query))
  · have mapped : pushGroups ∅ (records.map fun record => (record.id, extractTags record.query)) =
        records.foldl (fun index record => pushAll index record.id (extractTags record.query)) ∅ :=
      List.foldl_map
    rw [loaded.links, mapped]
    rfl
  · rw [List.map_map]
    exact unlike
  · intro id sub found
    by_cases listed : id ∈ records.map PersistedSub.id
    · obtain ⟨record, member, same⟩ := List.mem_map.mp listed
      subst same
      exact ⟨_, List.mem_map_of_mem member⟩
    · rw [loaded.other id listed] at found
      cases found
  · intro id tags member
    obtain ⟨record, listed, same⟩ := List.mem_map.mp member
    cases same
    obtain ⟨cachedResult, _, located⟩ := loaded.restored unlike record listed
    exact ⟨_, located, count_extract_tags ontology record.query (covered records stored record listed)⟩

end SubscriptionEngine

/-- The engine with the ontology of its last refresh and the device it is
flushed to. -/
structure LinkState where
  engine : SubscriptionEngine
  ontology : OntologyState
  device : Device

inductive LinkOp where
  | register (name : String) (query : Query) (interest : ChangeInterest) (retention : Retention)
      (initialResult : Finset Nat) (currentLsn : Nat)
  | unregister (id : SubscriptionId)
  | refreshOntologyLinks (ontology : OntologyState)
  | flushToRegion
  | loadFromRegion

section

variable (env : SubscriptionRegionEnv) (offset : Nat)

namespace LinkState

def step (s : LinkState) : LinkOp → LinkState
  | .register name query interest retention initialResult currentLsn =>
      { s with
        engine :=
          (s.engine.register name query interest retention initialResult currentLsn).1 }
  | .unregister id =>
      match s.engine.unregister id with
      | .ok engine => { s with engine := engine }
      | .error _ => s
  | .refreshOntologyLinks ontology =>
      { s with engine := s.engine.refreshOntologyLinks ontology, ontology := ontology }
  | .flushToRegion => { s with device := (s.engine.flushToRegion env offset s.device).2 }
  | .loadFromRegion =>
      match SubscriptionEngine.loadFromRegion env s.device offset with
      | .ok engine => { s with engine := engine }
      | .error _ => s

def run (s : LinkState) (ops : List LinkOp) : LinkState := ops.foldl (step env offset) s

end LinkState

/-- Where an operation extracts the tags of a query without the ontology, the
query is covered; a new identifier is not in use, and the identifiers of stored
records are distinct. -/
def LinkOp.Careful (s : LinkState) : LinkOp → Prop
  | .register _ query _ _ _ _ =>
      s.engine.subscriptions.lookup ((s.engine.nextId + 1) % 2 ^ 64) = none ∧
        Covered s.ontology query
  | .unregister id =>
      ∀ sub, s.engine.subscriptions.lookup id = some sub → Covered s.ontology sub.query
  | .refreshOntologyLinks _ => True
  | .flushToRegion => True
  | .loadFromRegion =>
      ∀ records, SubscriptionEngine.storedRecords env s.device offset = .ok records →
        (records.map PersistedSub.id).Nodup ∧ ∀ record ∈ records, Covered s.ontology record.query

namespace LinkState

private theorem step_exact (s : LinkState) (op : LinkOp) (exact : s.engine.Exact s.ontology)
    (careful : op.Careful env offset s) :
    (s.step env offset op).engine.Exact (s.step env offset op).ontology := by
  cases op with
  | register name query interest retention initialResult currentLsn =>
      exact s.engine.register_exact s.ontology name query interest retention initialResult
        currentLsn exact careful.1 careful.2
  | unregister id =>
      simp only [step]
      split
      · next engine ok => exact s.engine.unregister_exact engine s.ontology id exact careful ok
      · exact exact
  | refreshOntologyLinks ontology => exact s.engine.refresh_exact ontology
  | flushToRegion => exact exact
  | loadFromRegion =>
      simp only [step]
      split
      · next engine ok =>
          exact SubscriptionEngine.load_exact env s.device offset s.ontology engine ok
            (fun records stored => (careful records stored).1)
            (fun records stored => (careful records stored).2)
      · exact exact

/-- What every careful operation keeps holds after every careful run. -/
theorem run_keeps (kept : LinkState → Prop)
    (each : ∀ s op, kept s → op.Careful env offset s → kept (s.step env offset op))
    (ops : List LinkOp) (s : LinkState) (start : kept s)
    (careful : ∀ taken op rest, ops = taken ++ op :: rest →
      op.Careful env offset (s.run env offset taken)) : kept (s.run env offset ops) := by
  induction ops generalizing s with
  | nil => exact start
  | cons op ops ih =>
      have first := careful [] op ops rfl
      apply ih (s.step env offset op) (each s op start first)
      intro taken next rest split
      exact careful (op :: taken) next rest (by rw [split, List.cons_append])

private theorem step_keyed (s : LinkState) (op : LinkOp) (keyed : s.engine.Keyed)
    (careful : op.Careful env offset s) : (s.step env offset op).engine.Keyed := by
  cases op with
  | register name query interest retention initialResult currentLsn =>
      constructor
      · intro id sub found
        simp only [step, SubscriptionEngine.register, lookup_insert_eq] at found
        split at found
        · next same =>
            cases found
            exact same.symm
        · exact keyed.own id sub found
      · intro id sub found
        simp only [step, SubscriptionEngine.register, lookup_insert_eq] at found
        split at found
        · next same =>
            rw [same]
            exact Nat.mod_lt _ (Nat.two_pow_pos 64)
        · exact keyed.narrow id sub found
  | unregister ended =>
      simp only [step, SubscriptionEngine.unregister]
      cases s.engine.subscriptions.lookup ended with
      | none => exact keyed
      | some sub =>
          have kept (id : SubscriptionId) (other : Subscription)
              (found : (s.engine.subscriptions.erase ended).lookup id = some other) :
              s.engine.subscriptions.lookup id = some other := by
            rw [lookup_erase_eq] at found
            split at found
            · cases found
            · exact found
          exact ⟨fun id other found => keyed.own id other (kept id other found),
            fun id other found => keyed.narrow id other (kept id other found)⟩
  | refreshOntologyLinks ontology => exact ⟨keyed.own, keyed.narrow⟩
  | flushToRegion => exact keyed
  | loadFromRegion =>
      simp only [step]
      split
      · next engine ok =>
          obtain ⟨records, stored, built⟩ :=
            SubscriptionEngine.load_ok env s.device offset engine ok
          have loaded := SubscriptionEngine.from_records_ok env.roaring records engine built
          have origin (id : SubscriptionId) (sub : Subscription)
              (found : engine.subscriptions.lookup id = some sub) :
              ∃ record ∈ records, record.id = id ∧ sub.id = id := by
            by_cases listed : id ∈ records.map PersistedSub.id
            · obtain ⟨record, member, same⟩ := List.mem_map.mp listed
              obtain ⟨cachedResult, _, located⟩ :=
                loaded.restored (careful records stored).1 record member
              rw [same, found] at located
              cases located
              exact ⟨record, member, same, same⟩
            · rw [loaded.other id listed] at found
              cases found
          constructor
          · intro id sub found
            obtain ⟨record, _, _, own⟩ := origin id sub found
            exact own
          · intro id sub found
            obtain ⟨record, member, same, _⟩ := origin id sub found
            rw [← same]
            exact SubscriptionEngine.stored_records_narrow env s.device offset records stored
              record member
      · exact keyed

/-- In every run of careful operations every tag lists exactly the subscriptions
that belong under it, each once; and what a flush then stores has distinct
identifiers. -/
theorem tag_index_exact (ontology : OntologyState) (device : Device) (ops : List LinkOp)
    (careful : ∀ taken op rest, ops = taken ++ op :: rest →
      op.Careful env offset (run env offset ⟨.new, ontology, device⟩ taken)) :
    (run env offset ⟨.new, ontology, device⟩ ops).engine.Exact
        (run env offset ⟨.new, ontology, device⟩ ops).ontology ∧
      ∀ after, (run env offset ⟨.new, ontology, device⟩ ops).engine.flushToRegion env offset
          (run env offset ⟨.new, ontology, device⟩ ops).device = (.ok (), after) →
        ∃ records, SubscriptionEngine.storedRecords env after offset = .ok records ∧
          (records.map PersistedSub.id).Nodup := by
  have keyed : SubscriptionEngine.new.Keyed := by
    constructor
    · intro id sub found
      cases found
    · intro id sub found
      cases found
  constructor
  · exact run_keeps env offset (fun s => s.engine.Exact s.ontology) (step_exact env offset) ops
      ⟨.new, ontology, device⟩ (SubscriptionEngine.new_exact ontology) careful
  · intro after ok
    have reached := run_keeps env offset (fun s => s.engine.Keyed) (step_keyed env offset) ops
      ⟨.new, ontology, device⟩ keyed careful
    have stored := (SubscriptionEngine.flushed_records env _ reached offset _ after ok).2 after
      (agrees_refl offset regionSize after)
    exact ⟨_, stored, (SubscriptionEngine.snapshot_ids_increasing env.roaring _ reached).imp
      fun less => ne_of_lt less⟩

end LinkState

end

/-- `vehicle` (1), and `car` (2), which implies it. -/
def vehicles : OntologyState :=
  let label (name : String) : TagDefinition :=
    { id := 0, name := name, semantics := .label, implies := [], storage := none }
  (OntologyState.new.install Toposort.byReachability
    { id := "vehicles", version := "1", name := "vehicles"
      tags := [label "vehicle", label "car"]
      implications := [("car", "vehicle")]
      relations := [] } .new).1

/-- The image of the empty bitmap; any other bitmap has its number in unary. -/
def sampleRoaring : Roaring where
  serialise set :=
    if set = ∅ then [0x3a, 0x30, 0, 0, 0, 0, 0, 0]
    else 1 :: List.replicate (Encodable.encode set) 0
  deserialise bytes :=
    if bytes = [0x3a, 0x30, 0, 0, 0, 0, 0, 0] then .ok ∅
    else
      match Encodable.decode (bytes.length - 1) with
      | some set => .ok set
      | none => .error "unknown cookie"
  back set := by
    by_cases empty : set = ∅
    · subst empty
      rfl
    · rw [if_neg empty, if_neg (by simp)]
      simp
  cookie set := by
    split <;> simp

/-- Records are neither written nor read with it. -/
def sampleRegionEnv : SubscriptionRegionEnv where
  crc := crc32c
  roaring := sampleRoaring
  record :=
    { encode _ := .error "no record"
      decode _ := .error "no record"
      decode_encode _ _ encoded := by cases encoded }
  some_byte _ _ encoded := by cases encoded
  short _ _ encoded := by cases encoded
  narrow _ _ decoded := by cases decoded
  table :=
    { encode _ := .error "no table"
      decode _ := .error "no table"
      decode_encode _ _ encoded := by cases encoded }

def blankDevice : Device :=
  { bytes := fun _ => 0
    capacity := 2 ^ 20
    readOnly := false
    faults := [] }

/-- An engine is loaded from a blank region; then `car` is watched, and the
watch ends. -/
def carWatch : List LinkOp :=
  [.loadFromRegion, .refreshOntologyLinks vehicles,
    .register "cars" (.isA 2) ChangeInterest.all .unlimited ∅ 0, .unregister 1]

def watchStart : LinkState := ⟨.new, .new, blankDevice⟩

private theorem nothing_below_car : Covered vehicles (.isA 2) := by
  have none : ∀ tag ∈ vehicles.dag.tags, ¬ (tag ≠ 2 ∧ vehicles.dag.isA tag 2 = true) := by
    decide +kernel
  intro top clause tag below
  have named : top = 2 := List.mem_singleton.mp clause
  subst named
  exact absurd below.2 (none tag below.1)

private theorem blank_region_empty :
    SubscriptionEngine.storedRecords sampleRegionEnv blankDevice 0 = .ok [] := by
  rfl

/-- The watch on `car` is linked while it lasts. -/
theorem car_watch_exact :
    (LinkState.run sampleRegionEnv 0 watchStart carWatch).engine.Exact
        (LinkState.run sampleRegionEnv 0 watchStart carWatch).ontology ∧
      ((LinkState.run sampleRegionEnv 0 watchStart (carWatch.take 3)).engine.tagToSubs.lookup 2) =
        some [1] := by
  refine ⟨(LinkState.tag_index_exact sampleRegionEnv 0 .new blankDevice carWatch ?_).1,
    by decide +kernel⟩
  intro taken op rest split
  match taken, split with
  | [], split =>
      cases split
      intro records stored
      have none : records = [] := (Except.ok.inj (blank_region_empty.symm.trans stored)).symm
      subst none
      exact ⟨List.nodup_nil, fun record member => absurd member List.not_mem_nil⟩
  | [_], split =>
      cases split
      exact True.intro
  | [_, _], split =>
      cases split
      exact ⟨rfl, nothing_below_car⟩
  | [_, _, _], split =>
      cases split
      intro sub found
      cases found
      exact nothing_below_car
  | _ :: _ :: _ :: _ :: _, split => simp [carWatch] at split

/-- A watch on `vehicle` that is registered when `car` implies it is not linked
under `car`. One that a refresh has linked there stays linked when it ends. -/
def lateVehicleWatch : List LinkOp :=
  [.refreshOntologyLinks vehicles,
    .register "vehicles" (.isA 1) ChangeInterest.all .unlimited ∅ 0]

def endedVehicleWatch : List LinkOp :=
  [.register "vehicles" (.isA 1) ChangeInterest.all .unlimited ∅ 0,
    .refreshOntologyLinks vehicles, .unregister 1]

theorem vehicle_watch_not_linked :
    ¬ (LinkState.run sampleRegionEnv 0 watchStart lateVehicleWatch).engine.Exact
        (LinkState.run sampleRegionEnv 0 watchStart lateVehicleWatch).ontology ∧
      ¬ (LinkState.run sampleRegionEnv 0 watchStart endedVehicleWatch).engine.Exact
        (LinkState.run sampleRegionEnv 0 watchStart endedVehicleWatch).ontology := by
  constructor
  · intro exact
    exact absurd (exact 2 1) (by decide +kernel)
  · intro exact
    exact absurd (exact 2 1) (by decide +kernel)

end Mimisbrunnr.Watch
