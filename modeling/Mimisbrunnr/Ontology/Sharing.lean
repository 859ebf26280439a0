import Mimisbrunnr.Ontology.Coherence

/-!
# What a scrub takes from the other modules

The record of a module lists the tags that its installation registered and every
implication and relation that its source lists. A tag that two sources list is
therefore recorded by the module that listed it first and by no other, and the
scrub of that module takes the tag away from the second. Relations and
implications between surviving tags are recorded by every module that lists
them and stay.
-/

namespace Mimisbrunnr.Ontology.OntologyState

set_option autoImplicit false

open Mimisbrunnr.Lib
open Mimisbrunnr.Lib.Digraph
open Mimisbrunnr.Lib.FiniteMap
open Mimisbrunnr.Types

/-- A call that brings in the source of a module. -/
inductive ModuleCall where
  | install (bundle : OntologyModule) (allocator : IdAllocator)
  | upgrade (bundle : OntologyModule)

namespace ModuleCall

def bundle : ModuleCall → OntologyModule
  | .install bundle _ => bundle
  | .upgrade bundle => bundle

def op : ModuleCall → LifecycleOp
  | .install bundle allocator => .install bundle allocator
  | .upgrade bundle => .upgrade bundle

end ModuleCall

def sourceOf (calls : List ModuleCall) (id : ModuleId) : Option OntologyModule :=
  (calls.map ModuleCall.bundle).reverse.find? fun bundle => bundle.id = id

/-- The module of the first call that lists the name among its tags. -/
def firstLister (calls : List ModuleCall) (name : String) : Option ModuleId :=
  ((calls.map ModuleCall.bundle).find? fun bundle =>
    name ∈ bundle.tags.map TagDefinition.name).map OntologyModule.id

private theorem source_of_append (calls : List ModuleCall) (call : ModuleCall) (id : ModuleId) :
    sourceOf (calls ++ [call]) id =
      if call.bundle.id = id then some call.bundle else sourceOf calls id := by
  simp only [sourceOf, List.map_append, List.map_singleton, List.reverse_append,
    List.reverse_singleton, List.singleton_append, List.find?_cons]
  split
  · next same => simp [of_decide_eq_true same]
  · next different => rw [if_neg (of_decide_eq_false different)]

theorem first_lister_append (calls : List ModuleCall) (call : ModuleCall) (name : String) :
    firstLister (calls ++ [call]) name =
      (firstLister calls name).or
        (if name ∈ call.bundle.tags.map TagDefinition.name then some call.bundle.id else none) := by
  simp only [firstLister, List.map_append, List.map_singleton, List.find?_append, Option.map_or]
  congr 1
  by_cases lists : name ∈ call.bundle.tags.map TagDefinition.name
  · simp only [List.find?_cons, lists, decide_true, Option.map_some, if_true]
  · simp only [List.find?_cons, lists, decide_false, List.find?_nil, Option.map_none, if_false]

@[simp] theorem mem_combine {α : Type} [DecidableEq α] (kept added : List α) (x : α) :
    x ∈ combine kept added ↔ x ∈ kept ∨ x ∈ added := by
  induction added generalizing kept with
  | nil => simp [combine]
  | cons first rest ih =>
      rw [combine, List.foldl_cons, ← combine, ih, List.mem_cons]
      exact Vec.mem_push_missing kept rest first x

/-- What a successful call does, as far as the other modules can see it. -/
structure Enlargement (bundle : OntologyModule) (s after : OntologyState) : Prop where
  tables : after.Tables
  kept : ∀ name tag, s.names.lookup name = some tag → after.names.lookup name = some tag
  origin : ∀ name tag, after.names.lookup name = some tag →
    s.names.lookup name = some tag ∨
      (s.names.lookup name = none ∧ tag ∉ s.tags ∧ name ∈ bundle.tags.map TagDefinition.name)
  covers : ∀ definition ∈ bundle.tags, ∃ tag, after.names.lookup definition.name = some tag
  edges : ∀ a b, s.dag.TagEdge a b → after.dag.TagEdge a b
  relations : ∀ edge ∈ s.relations, edge ∈ after.relations
  others : ∀ id, id ≠ bundle.id →
    after.installedModules.lookup id = s.installedModules.lookup id
  record : ∃ record, after.installedModules.lookup bundle.id = some record ∧
    (∀ tag, tag ∈ record.installedTags ↔
      (∃ previous, s.installedModules.lookup bundle.id = some previous ∧
        tag ∈ previous.installedTags) ∨ (tag ∈ after.tags ∧ tag ∉ s.tags)) ∧
    (∀ given ∈ bundle.implications, ∃ a b, after.names.lookup given.1 = some a ∧
      after.names.lookup given.2 = some b ∧ (a, b) ∈ record.installedImplications ∧
      after.dag.TagEdge a b) ∧
    ∀ given ∈ bundle.relations, ∃ a b, after.names.lookup given.1 = some a ∧
      after.names.lookup given.2.2 = some b ∧ (a, given.2.1, b) ∈ record.installedRelations ∧
      (a, given.2.1, b) ∈ after.relations

theorem Growth.enlargement {bundle : OntologyModule} {s after final : OntologyState}
    {fresh : List TagId} {pairs : List (TagId × TagId)}
    {triples : List (TagId × TagRelation × TagId)} {earlier : FMap ModuleId ModuleRecord}
    (growth : Growth bundle { s with installedModules := earlier } after fresh pairs triples)
    (tables : s.Tables) (record : ModuleRecord)
    (records : FMap ModuleId ModuleRecord)
    (same : final = { after with installedModules := records })
    (own : records.lookup bundle.id = some record)
    (others : ∀ id, id ≠ bundle.id → records.lookup id = s.installedModules.lookup id)
    (owned : ∀ tag, tag ∈ record.installedTags ↔
      (∃ previous, s.installedModules.lookup bundle.id = some previous ∧
        tag ∈ previous.installedTags) ∨ tag ∈ fresh)
    (implied : ∀ pair ∈ pairs, pair ∈ record.installedImplications)
    (related : ∀ edge ∈ triples, edge ∈ record.installedRelations) :
    Enlargement bundle s final := by
  subst same
  exact
    { tables := ⟨growth.tables.valid, growth.tables.named, growth.tables.nodes⟩
      kept := growth.kept
      origin := by
        intro name tag found
        rcases named : s.names.lookup name with _ | other
        · have new : tag ∉ s.tags := by
            intro old
            obtain ⟨before, located⟩ := (tables.mem_iff_named tag).mp old
            have again := growth.tables.same_name name before tag found
              (growth.kept before tag located)
            rw [again, located] at named
            cases named
          exact Or.inr ⟨rfl, new, (growth.origin name tag found new).2⟩
        · have again := growth.kept name other named
          rw [found] at again
          exact Or.inl again.symm
      covers := growth.covers
      edges := fun a b edge => (growth.edges a b).mpr (Or.inl edge)
      relations := fun edge member => (growth.relations edge).mpr (Or.inl member)
      others := others
      record := by
        refine ⟨record, own, ?_, ?_, ?_⟩
        · intro tag
          rw [owned, growth.added]
        · intro given member
          obtain ⟨⟨a, b⟩, inside, left, right⟩ :=
            Vec.exists_right_of_mem growth.resolved given member
          exact ⟨a, b, left, right, implied _ inside, (growth.edges a b).mpr (Or.inr inside)⟩
        · intro given member
          obtain ⟨⟨a, kind, b⟩, inside, left, sameKind, right⟩ :=
            Vec.exists_right_of_mem growth.triplesResolved given member
          rw [sameKind]
          exact ⟨a, b, left, right, related _ inside, (growth.relations _).mpr (Or.inr inside)⟩ }

private theorem call_enlarges (topo : Toposort TagId) (s : OntologyState) (call : ModuleCall)
    (tables : s.Tables) (fresh : s.FreshIds call.op) (ok : (step topo s call.op).2 = .ok ()) :
    Enlargement call.bundle s (step topo s call.op).1 := by
  cases call with
  | install bundle allocator =>
      rcases outcome : (s.install topo bundle allocator).2.1 with err | res
      · simp [ModuleCall.op, step, outcome, Except.map] at ok
      obtain ⟨unused, added, pairs, triples, growth, -⟩ :=
        s.install_growth topo bundle allocator res tables fresh outcome
      apply growth.enlargement tables _ _ rfl
      · rw [growth.records, lookup_insert_eq, if_pos rfl]
      · intro id different
        rw [growth.records, lookup_insert_eq, if_neg different]
      · intro tag
        simp [unused]
      · exact fun _ member => member
      · exact fun _ member => member
  | upgrade bundle =>
      rcases outcome : (s.upgrade topo bundle).2 with err | res
      · simp [ModuleCall.op, step, outcome, Except.map] at ok
      obtain ⟨previous, added, pairs, triples, middle, found, -, growth, -, final⟩ :=
        s.upgrade_growth topo bundle res tables fresh outcome
      let record := mergeRecords previous
        { id := bundle.id
          version := bundle.version
          name := bundle.name
          installedTags := added
          installedImplications := pairs
          installedRelations := triples }
      apply growth.enlargement tables record _ final
      · rw [lookup_update, if_pos rfl, growth.records, lookup_insert_eq, if_pos rfl]
        rfl
      · intro id different
        rw [lookup_update, if_neg different, growth.records, lookup_insert_eq, if_neg different]
        simp only [withoutRecord, lookup_erase_eq, if_neg different]
      · intro tag
        simp [record, mergeRecords, found]
      · exact fun pair member => (mem_combine _ _ pair).mpr (Or.inr member)
      · exact fun edge member => (mem_combine _ _ edge).mpr (Or.inr member)

def runCalls (topo : Toposort TagId) (calls : List ModuleCall) : OntologyState :=
  run topo new (calls.map ModuleCall.op)

/-- Every call succeeds and gives its new names ids above the registered ones. -/
def AllInstalled (topo : Toposort TagId) (calls : List ModuleCall) : Prop :=
  ∀ taken call rest, calls = taken ++ call :: rest →
    (step topo (runCalls topo taken) call.op).2 = .ok () ∧
      (runCalls topo taken).FreshIds call.op

/-- What the records and the tables know about the calls so far. -/
structure Tracks (calls : List ModuleCall) (s : OntologyState) : Prop where
  tables : s.Tables
  listers : ∀ name, (s.names.lookup name).isSome = (firstLister calls name).isSome
  owned : ∀ id tag,
    (∃ record, s.installedModules.lookup id = some record ∧ tag ∈ record.installedTags) ↔
      ∃ name, s.names.lookup name = some tag ∧ firstLister calls name = some id
  declared : ∀ id bundle, sourceOf calls id = some bundle →
    ∃ record, s.installedModules.lookup id = some record ∧
      (∀ definition ∈ bundle.tags, ∃ tag, s.names.lookup definition.name = some tag) ∧
      (∀ given ∈ bundle.implications, ∃ a b, s.names.lookup given.1 = some a ∧
        s.names.lookup given.2 = some b ∧ (a, b) ∈ record.installedImplications ∧
        s.dag.TagEdge a b) ∧
      ∀ given ∈ bundle.relations, ∃ a b, s.names.lookup given.1 = some a ∧
        s.names.lookup given.2.2 = some b ∧ (a, given.2.1, b) ∈ record.installedRelations ∧
        (a, given.2.1, b) ∈ s.relations

private theorem tracks_new : Tracks [] new where
  tables := new_tables
  listers := by
    intro name
    simp [new, firstLister]
  owned := by
    intro id tag
    simp [new]
  declared := by
    intro id bundle source
    simp [sourceOf] at source

private theorem Tracks.lister_kept {calls : List ModuleCall} {s : OntologyState}
    (tracked : Tracks calls s)
    (call : ModuleCall) (name : String) (tag : TagId) (found : s.names.lookup name = some tag) :
    firstLister (calls ++ [call]) name = firstLister calls name := by
  have known := tracked.listers name
  rw [found, Option.isSome_some] at known
  obtain ⟨id, first⟩ := Option.isSome_iff_exists.mp known.symm
  rw [first_lister_append, first, Option.some_or]

private theorem Tracks.lister_new {calls : List ModuleCall} {s : OntologyState}
    (tracked : Tracks calls s)
    (call : ModuleCall) (name : String) (free : s.names.lookup name = none) :
    firstLister (calls ++ [call]) name =
      if name ∈ call.bundle.tags.map TagDefinition.name then some call.bundle.id else none := by
  have unknown := tracked.listers name
  rw [free, Option.isSome_none] at unknown
  have missing : firstLister calls name = none := by simpa using unknown.symm
  rw [first_lister_append, missing, Option.none_or]

private theorem Enlargement.tracks {calls : List ModuleCall} {s after : OntologyState}
    (call : ModuleCall)
    (enlargement : Enlargement call.bundle s after) (tracked : Tracks calls s) :
    Tracks (calls ++ [call]) after where
  tables := enlargement.tables
  listers := by
    intro name
    rcases found : s.names.lookup name with _ | tag
    · rw [tracked.lister_new call name found]
      by_cases lists : name ∈ call.bundle.tags.map TagDefinition.name
      · obtain ⟨definition, member, rfl⟩ := List.mem_map.mp lists
        obtain ⟨tag, named⟩ := enlargement.covers definition member
        rw [named, if_pos lists]
        rfl
      · rw [if_neg lists]
        rcases named : after.names.lookup name with _ | tag
        · rfl
        · rcases enlargement.origin name tag named with old | ⟨-, -, listed⟩
          · rw [found] at old
            cases old
          · exact absurd listed lists
    · rw [tracked.lister_kept call name tag found, enlargement.kept name tag found,
        ← tracked.listers, found]
  owned := by
    intro id tag
    obtain ⟨own, located, tags, -, -⟩ := enlargement.record
    constructor
    · rintro ⟨record, found, member⟩
      by_cases same : id = call.bundle.id
      · subst same
        rw [located] at found
        cases found
        rcases (tags tag).mp member with old | ⟨present, new⟩
        · obtain ⟨name, named, first⟩ := (tracked.owned _ tag).mp old
          refine ⟨name, enlargement.kept name tag named, ?_⟩
          rw [tracked.lister_kept call name tag named, first]
        · obtain ⟨name, named⟩ := (enlargement.tables.mem_iff_named tag).mp present
          rcases enlargement.origin name tag named with old | ⟨free, -, listed⟩
          · exact absurd (tracked.tables.tag_of_name name tag old) new
          · exact ⟨name, named, by rw [tracked.lister_new call name free, if_pos listed]⟩
      · rw [enlargement.others id same] at found
        obtain ⟨name, named, first⟩ := (tracked.owned id tag).mp ⟨record, found, member⟩
        refine ⟨name, enlargement.kept name tag named, ?_⟩
        rw [tracked.lister_kept call name tag named, first]
    · rintro ⟨name, named, first⟩
      rcases enlargement.origin name tag named with old | ⟨free, new, listed⟩
      · rw [tracked.lister_kept call name tag old] at first
        have before := (tracked.owned id tag).mpr ⟨name, old, first⟩
        by_cases same : id = call.bundle.id
        · subst same
          exact ⟨own, located, (tags tag).mpr (Or.inl before)⟩
        · rw [enlargement.others id same]
          exact before
      · rw [tracked.lister_new call name free, if_pos listed] at first
        cases first
        have present := enlargement.tables.tag_of_name name tag named
        exact ⟨own, located, (tags tag).mpr (Or.inr ⟨present, new⟩)⟩
  declared := by
    intro id bundle source
    rw [source_of_append] at source
    by_cases same : call.bundle.id = id
    · rw [if_pos same] at source
      cases source
      subst same
      obtain ⟨record, found, -, implications, relations⟩ := enlargement.record
      exact ⟨record, found, enlargement.covers, implications, relations⟩
    · rw [if_neg same] at source
      obtain ⟨record, found, tags, implications, relations⟩ := tracked.declared id bundle source
      refine ⟨record, ?_, ?_, ?_, ?_⟩
      · rw [enlargement.others id (Ne.symm same), found]
      · intro definition member
        obtain ⟨tag, named⟩ := tags definition member
        exact ⟨tag, enlargement.kept _ tag named⟩
      · intro given member
        obtain ⟨a, b, left, right, recorded, edge⟩ := implications given member
        exact ⟨a, b, enlargement.kept _ a left, enlargement.kept _ b right, recorded,
          enlargement.edges a b edge⟩
      · intro given member
        obtain ⟨a, b, left, right, recorded, holds⟩ := relations given member
        exact ⟨a, b, enlargement.kept _ a left, enlargement.kept _ b right, recorded,
          enlargement.relations _ holds⟩

private theorem run_calls_tracks (topo : Toposort TagId) (calls : List ModuleCall)
    (installed : AllInstalled topo calls) : Tracks calls (runCalls topo calls) := by
  induction calls using List.reverseRecOn with
  | nil => exact tracks_new
  | append_singleton earlier call ih =>
      have before : Tracks earlier (runCalls topo earlier) := by
        apply ih
        intro taken other rest split
        exact installed taken other (rest ++ [call]) (by rw [split]; simp)
      obtain ⟨ok, fresh⟩ := installed earlier call [] rfl
      have enlarged := call_enlarges topo _ call before.tables fresh ok
      have last : runCalls topo (earlier ++ [call]) =
          (step topo (runCalls topo earlier) call.op).1 := by
        rw [runCalls, List.map_append, run_append]
        rfl
      rw [last]
      exact enlarged.tracks call before

/-- The names a source lists in its tags or uses as an end of an implication. -/
def reliedNames (bundle : OntologyModule) : List String :=
  bundle.tags.map TagDefinition.name ++
    bundle.implications.flatMap fun given => [given.1, given.2]

/-- What the source lists holds in `after`, under the ids it had in `s`. -/
structure KeepsDeclared (bundle : OntologyModule) (s after : OntologyState) : Prop where
  tags : ∀ definition ∈ bundle.tags, ∃ tag, s.names.lookup definition.name = some tag ∧
    after.names.lookup definition.name = some tag ∧ tag ∈ after.tags
  implications : ∀ given ∈ bundle.implications, ∃ a b, s.names.lookup given.1 = some a ∧
    s.names.lookup given.2 = some b ∧ after.dag.TagEdge a b
  relations : ∀ given ∈ bundle.relations, ∃ a b, s.names.lookup given.1 = some a ∧
    s.names.lookup given.2.2 = some b ∧ (a, given.2.1, b) ∈ after.relations

theorem Tracks.removes_tag_iff {calls : List ModuleCall} {s : OntologyState}
    (tracked : Tracks calls s) (id : ModuleId) (name : String) (tag : TagId)
    (named : s.names.lookup name = some tag) :
    s.RemovesTag id tag ↔ firstLister calls name = some id := by
  constructor
  · rintro ⟨record, found, member, -⟩
    obtain ⟨other, again, first⟩ := (tracked.owned id tag).mp ⟨record, found, member⟩
    rwa [tracked.tables.same_name name other tag named again]
  · intro first
    obtain ⟨record, found, member⟩ := (tracked.owned id tag).mpr ⟨name, named, first⟩
    refine ⟨record, found, member, ?_⟩
    rintro ⟨sharer, present, listed⟩
    rcases located : (s.installedModules.erase id).lookup sharer with _ | shared
    · rw [located] at listed
      cases listed
    rw [located, Option.map_some, Option.getD_some] at listed
    rw [lookup_erase_eq] at located
    split at located
    · cases located
    · next different =>
        obtain ⟨other, again, second⟩ := (tracked.owned sharer tag).mp ⟨shared, located, listed⟩
        rw [tracked.tables.same_name other name tag again named, first] at second
        exact different (Option.some.inj second).symm

private theorem claimed_of_record {α : Type} [DecidableEq α] (s : OntologyState)
    (id other : ModuleId)
    (record : ModuleRecord) (field : ModuleRecord → List α) (x : α) (different : other ≠ id)
    (found : s.installedModules.lookup other = some record) (member : x ∈ field record) :
    claimed (s.installedModules.erase id) field x := by
  have kept : (s.installedModules.erase id).lookup other = some record := by
    rw [lookup_erase_eq, if_neg different, found]
  refine ⟨other, mem_of_lookup _ other record kept, ?_⟩
  rw [kept]
  exact member

private theorem Tracks.keeps_declared_iff {calls : List ModuleCall} {s : OntologyState}
    (tracked : Tracks calls s) (id other : ModuleId) (bundle : OntologyModule)
    (different : other ≠ id) (source : sourceOf calls other = some bundle) :
    KeepsDeclared bundle s (s.scrub id).1 ↔
      ∀ name ∈ reliedNames bundle, firstLister calls name ≠ some id := by
  obtain ⟨own, recorded, tags, implications, relations⟩ := tracked.declared other bundle source
  rcases found : s.installedModules.lookup id with _ | record
  · -- nothing is scrubbed, and a module without a record has listed no name first
    rw [s.scrub_missing id found]
    refine iff_of_true ⟨?_, ?_, ?_⟩ ?_
    · intro definition member
      obtain ⟨tag, named⟩ := tags definition member
      exact ⟨tag, named, named, tracked.tables.tag_of_name _ tag named⟩
    · intro given member
      obtain ⟨a, b, left, right, -, edge⟩ := implications given member
      exact ⟨a, b, left, right, edge⟩
    · intro given member
      obtain ⟨a, b, left, right, -, holds⟩ := relations given member
      exact ⟨a, b, left, right, holds⟩
    · intro name _ first
      have known := tracked.listers name
      rw [first, Option.isSome_some] at known
      obtain ⟨tag, named⟩ := Option.isSome_iff_exists.mp known
      obtain ⟨record, located, -⟩ := (tracked.owned id tag).mpr ⟨name, named, first⟩
      rw [found] at located
      cases located
  have shrinkage := s.scrub_shrinkage id record tracked.tables found
  have removes := tracked.removes_tag_iff id
  constructor
  · intro kept name member first
    rcases List.mem_append.mp member with listed | implied
    · obtain ⟨definition, inside, rfl⟩ := List.mem_map.mp listed
      obtain ⟨tag, before, after, -⟩ := kept.tags definition inside
      exact ((shrinkage.names _ tag).mp after).2 ((removes _ tag before).mpr first)
    · obtain ⟨given, inside, isEnd⟩ := List.mem_flatMap.mp implied
      obtain ⟨a, b, left, right, edge⟩ := kept.implications given inside
      obtain ⟨-, -, sourceKept, targetKept⟩ := (shrinkage.edges a b).mp edge
      simp only [List.mem_cons, List.not_mem_nil, or_false] at isEnd
      rcases isEnd with rfl | rfl
      · exact sourceKept ((removes _ a left).mpr first)
      · exact targetKept ((removes _ b right).mpr first)
  · intro others
    refine ⟨?_, ?_, ?_⟩
    · intro definition member
      obtain ⟨tag, named⟩ := tags definition member
      have listed : definition.name ∈ reliedNames bundle :=
        List.mem_append_left _ (List.mem_map_of_mem member)
      have after := (shrinkage.names _ tag).mpr
        ⟨named, fun gone => others _ listed ((removes _ tag named).mp gone)⟩
      exact ⟨tag, named, after, shrinkage.tables.tag_of_name _ tag after⟩
    · intro given member
      obtain ⟨a, b, left, right, inRecord, edge⟩ := implications given member
      have endKept (name : String) (tag : TagId) (named : s.names.lookup name = some tag)
          (isEnd : name ∈ [given.1, given.2]) : ¬ s.RemovesTag id tag := by
        intro gone
        have listed : name ∈ reliedNames bundle :=
          List.mem_append_right _ (List.mem_flatMap.mpr ⟨given, member, isEnd⟩)
        exact others name listed ((removes name tag named).mp gone)
      refine ⟨a, b, left, right, (shrinkage.edges a b).mpr ⟨edge, ?_, ?_, ?_⟩⟩
      · rintro ⟨_, _, _, unclaimed⟩
        exact unclaimed (s.claimed_of_record id other own ModuleRecord.installedImplications (a, b)
          different recorded inRecord)
      · exact endKept given.1 a left (by simp)
      · exact endKept given.2 b right (by simp)
    · intro given member
      obtain ⟨a, b, left, right, inRecord, holds⟩ := relations given member
      refine ⟨a, b, left, right, (shrinkage.relations _).mpr ⟨holds, ?_⟩⟩
      rintro ⟨_, _, _, unclaimed⟩
      exact unclaimed (s.claimed_of_record id other own ModuleRecord.installedRelations _
        different recorded inRecord)

/-- After any successful installs and upgrades, the scrub of `id` keeps what the
sources of the other modules list exactly when no name they list among their
tags or use in an implication was first listed by `id`. -/
theorem scrub_keeps_declared_iff_not_first (topo : Toposort TagId) (calls : List ModuleCall)
    (id : ModuleId) (installed : AllInstalled topo calls) :
    (∀ other bundle, other ≠ id → sourceOf calls other = some bundle →
      KeepsDeclared bundle (runCalls topo calls) ((runCalls topo calls).scrub id).1) ↔
    ∀ other bundle, other ≠ id → sourceOf calls other = some bundle →
      ∀ name ∈ reliedNames bundle, firstLister calls name ≠ some id := by
  have tracked := run_calls_tracks topo calls installed
  refine forall_congr' fun other => forall_congr' fun bundle => ?_
  refine imp_congr_right fun different => imp_congr_right fun source => ?_
  exact tracked.keeps_declared_iff id other bundle different source

/-- Two modules that both list the tag `file`. -/
def sharedName : List ModuleCall :=
  [.install (labelModule "first" "file" [] []) (IdAllocator.startingAt 1),
    .install (labelModule "second" "file" [] []) (IdAllocator.startingAt 2)]

private theorem shared_name_installed : AllInstalled Toposort.byReachability sharedName := by
  intro taken call rest split
  match taken, split with
  | [], split =>
      cases split
      refine ⟨by decide +kernel, fun _ => ⟨?_, by decide +kernel⟩⟩
      exact fun tag present => absurd present Finmap.notMem_empty
  | [_], split =>
      cases split
      have keys : ∀ tag ∈ (runCalls Toposort.byReachability
          [.install (labelModule "first" "file" [] []) (IdAllocator.startingAt 1)]).tags.keys,
          tag < 2 := by
        decide +kernel
      refine ⟨by decide +kernel, fun _ => ⟨?_, by decide +kernel⟩⟩
      exact fun tag present => keys tag (Finmap.mem_keys.mpr present)
  | _ :: _ :: _, split => simp [sharedName] at split

/-- The module that listed the name second can be scrubbed without loss. -/
theorem shared_name_second_scrubbed :
    ((runCalls Toposort.byReachability sharedName).scrub "second").2 = .ok 0 ∧
      ∀ other bundle, other ≠ "second" → sourceOf sharedName other = some bundle →
        KeepsDeclared bundle (runCalls Toposort.byReachability sharedName)
          ((runCalls Toposort.byReachability sharedName).scrub "second").1 := by
  refine ⟨by decide +kernel, ?_⟩
  refine (scrub_keeps_declared_iff_not_first Toposort.byReachability sharedName "second"
    shared_name_installed).mpr ?_
  intro other bundle _ source name relied
  have member := List.mem_of_find?_eq_some source
  have only : ∀ bundle ∈ (sharedName.map ModuleCall.bundle).reverse,
      ∀ name ∈ reliedNames bundle, firstLister sharedName name ≠ some "second" := by
    decide
  exact only bundle member name relied

/-- Scrubbing the module that listed the name first deletes the tag of the
second. -/
theorem shared_name_first_scrubbed :
    ((runCalls Toposort.byReachability sharedName).scrub "first").2 = .ok 1 ∧
      ¬ ∀ other bundle, other ≠ "first" → sourceOf sharedName other = some bundle →
        KeepsDeclared bundle (runCalls Toposort.byReachability sharedName)
          ((runCalls Toposort.byReachability sharedName).scrub "first").1 := by
  refine ⟨by decide +kernel, ?_⟩
  intro kept
  have declared := kept "second" (labelModule "second" "file" [] []) (by decide) rfl
  obtain ⟨tag, -, after, -⟩ := declared.tags _ (List.mem_singleton.mpr rfl)
  have gone : ((runCalls Toposort.byReachability sharedName).scrub "first").1.names.lookup "file" =
      none := by
    decide +kernel
  have same := gone.symm.trans after
  cases same

end Mimisbrunnr.Ontology.OntologyState
