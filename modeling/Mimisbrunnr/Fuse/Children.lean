import Mimisbrunnr.Fuse.TagVfs

/-!
# The two ways to the children of a directory

`deriveChildKind` parses a name and `children` enumerates. They agree where
nothing in the mirrors is ambiguous (`Unambiguous`) and the name is one that an
enumeration could show (`Plain`): a tag may not be called like the number of an
object, a path may belong to one object only and not be a directory as well, and
a number has one spelling.
-/

namespace Mimisbrunnr.Index.TagIndex

set_option autoImplicit false

open Mimisbrunnr.Types

private theorem mem_intersect_with (index : TagIndex) (tags : List TagId) (entry : Nat) :
    ∀ acc : Finset Nat, entry ∈ index.intersectWith acc tags ↔
      entry ∈ acc ∧ ∀ tag ∈ tags, entry ∈ index.membersOf tag := by
  induction tags with
  | nil =>
      intro acc
      simp [intersectWith]
  | cons tag rest ih =>
      intro acc
      rcases found : index.querySimple tag with _ | members
      · simp [intersectWith, membersOf, found]
      · simp only [intersectWith, found, ih, Finset.mem_inter, List.forall_mem_cons, membersOf,
          Option.getD_some, and_assoc]

theorem mem_intersect (index : TagIndex) (tags : List TagId) (entry : Nat) :
    entry ∈ index.intersect tags ↔ tags ≠ [] ∧ ∀ tag ∈ tags, entry ∈ index.membersOf tag := by
  cases tags with
  | nil => simp [intersect]
  | cons tag rest =>
      rcases found : index.querySimple tag with _ | members
      · simp [intersect, membersOf, found]
      · simp only [intersect, found, mem_intersect_with, ne_eq, reduceCtorEq, not_false_eq_true,
          List.forall_mem_cons, membersOf, Option.getD_some, true_and]

end Mimisbrunnr.Index.TagIndex

namespace Mimisbrunnr.Fuse

set_option autoImplicit false

open Mimisbrunnr.Index
open Mimisbrunnr.Lib
open Mimisbrunnr.Lib.FiniteMap
open Mimisbrunnr.Ontology
open Mimisbrunnr.Types
open Mimisbrunnr.Unix

/-- The children `readdir` goes through in a directory of the kind. -/
def Mirrors.children (m : Mirrors) : VfsEntryKind → List (List Char × VfsEntryKind)
  | .root => [("tags".toList, .tagsRoot), ("ctx".toList, .ctxRoot)]
  | .tagsRoot => m.tagsRootChildren
  | .ctxRoot => m.ctxRootChildren
  | .tagDir currentTags => m.tagDirChildren currentTags
  | .ctxDir context subPath => m.ctxDirChildren context subPath
  | .tagObject _ => []
  | .ctxObject _ _ => []

def Mirrors.NamesInverse (m : Mirrors) : Prop :=
  ∀ name tag, m.ontology.names.lookup name = some tag ↔
    ∃ definition, m.ontology.tags.lookup tag = some definition ∧ definition.name = name

/-- A path that names a file belongs to one object and is no directory of another path.
Paths that end in a separator name no file. -/
def OneEntryPerPath (projection : PathProjection) : Prop :=
  ∀ first ∈ projection.paths, ∀ second ∈ projection.paths, first.2.getLast? ≠ some '/' →
    (first.2 = second.2 → first.1 = second.1) ∧ ¬ (first.2 ++ ['/']).isPrefixOf second.2

/-- No tag is called like the number of an object that has a tag, and the projections
of the contexts give every path one meaning. -/
structure Mirrors.Unambiguous (m : Mirrors) : Prop where
  numbers : ∀ name tag, m.ontology.names.lookup name = some tag →
    ∀ entry ∈ m.tagIndex.membersOf tag,
      m.ontology.names.lookup (String.ofList (Nat.toDigits 10 entry)) = none
  paths : ∀ context projection, m.contextTrees.get context = some projection →
    context ∈ m.ontology.tags → OneEntryPerPath projection

/-- Below tags, a number of a matched object is spelt as `readdir` spells it; in a
context, a name that is empty or has a separator in it leads nowhere. -/
def Mirrors.Plain (m : Mirrors) : VfsEntryKind → List Char → Prop
  | .tagDir currentTags, name =>
      m.ontology.names.lookup (String.ofList name) = none →
        ∀ raw, Text.parseUnsigned 10 (2 ^ 64) name = some raw →
          raw % 2 ^ 32 ∈ m.intersect currentTags → name = Nat.toDigits 10 (raw % 2 ^ 32)
  | .ctxDir context subPath, name =>
      name = [] ∨ '/' ∈ name → ∀ projection, m.contextTrees.get context = some projection →
        ∀ entry ∈ projection.paths, entry.2 ≠ candidatePath subPath name ∧
          ¬ (candidatePath subPath name ++ ['/']).isPrefixOf entry.2
  | _, _ => True

/-- The tags of a directory are tags of the ontology. -/
def Mirrors.Known (m : Mirrors) : VfsEntryKind → Prop
  | .tagDir currentTags =>
      ∀ tag ∈ currentTags, ∃ name, m.ontology.names.lookup name = some tag
  | .ctxDir context _ => context ∈ m.ontology.tags
  | _ => True

variable (m : Mirrors)

theorem derive_under_tags_root_iff (name : List Char) (kind : VfsEntryKind) :
    m.deriveChildUnderTagsRoot name = some kind ↔
      ∃ tag members, m.ontology.names.lookup (String.ofList name) = some tag ∧
        m.tagIndex.querySimple tag = some members ∧ members ≠ ∅ ∧ kind = .tagDir {tag} := by
  simp only [Mirrors.deriveChildUnderTagsRoot, Option.bind_eq_bind, Option.bind_eq_some_iff,
    Option.ite_none_left_eq_some, Option.some.injEq, ne_eq, @eq_comm _ _ kind]
  constructor
  · intro ⟨tag, found, members, store, shown⟩
    exact ⟨tag, members, found, store, shown⟩
  · intro ⟨tag, members, found, store, shown⟩
    exact ⟨tag, found, members, store, shown⟩

theorem mem_tags_root_children (name : List Char) (kind : VfsEntryKind) :
    (name, kind) ∈ m.tagsRootChildren ↔
      ∃ tag members, m.ontology.names.lookup (String.ofList name) = some tag ∧
        m.tagIndex.querySimple tag = some members ∧ members ≠ ∅ ∧ kind = .tagDir {tag} := by
  simp only [Mirrors.tagsRootChildren, List.mem_filterMap, Prod.exists, mem_to_sorted,
    Option.bind_eq_bind, Option.bind_eq_some_iff, Option.ite_none_left_eq_some,
    Option.some.injEq, Prod.mk.injEq]
  constructor
  · rintro ⟨text, tag, found, members, store, shown, same, child⟩
    rw [← same, String.ofList_toList]
    exact ⟨tag, members, found, store, shown, child.symm⟩
  · rintro ⟨tag, members, found, store, shown, child⟩
    exact ⟨String.ofList name, tag, found, members, store, shown, String.toList_ofList,
      child.symm⟩

theorem names_distinct (listing : String × TagId → Option (List Char × VfsEntryKind))
    (named : ∀ entry child, listing entry = some child → child.1 = entry.1.toList) :
    (((toSorted m.ontology.names).filterMap listing).map Prod.fst).Nodup := by
  have increasing : (toSorted m.ontology.names).Pairwise fun a b => a.1 ≠ b.1 := by
    have keys := List.pairwise_map.mp (increasing_to_sorted m.ontology.names)
    exact keys.imp fun below => ne_of_lt below
  rw [List.Nodup, List.pairwise_map]
  apply List.Pairwise.filterMap listing _ increasing
  intro first second different left shownLeft right shownRight same
  rw [named first left shownLeft, named second right shownRight] at same
  exact different (String.toList_inj.mp same)

theorem mem_intersect (tags : Finset TagId) (entry : Nat)
    (member : entry ∈ m.intersect tags) :
    tags.Nonempty ∧ ∀ tag ∈ tags, entry ∈ m.tagIndex.membersOf tag := by
  obtain ⟨present, every⟩ := (m.tagIndex.mem_intersect _ entry).mp member
  obtain ⟨tag, inside⟩ := List.exists_mem_of_ne_nil _ present
  refine ⟨⟨tag, (SortedSet.mem_of_finset tags tag).mp inside⟩, ?_⟩
  intro other otherInside
  exact every other ((SortedSet.mem_of_finset tags other).mpr otherInside)

theorem intersect_narrow (tags : Finset TagId) (entry : Nat)
    (member : entry ∈ m.intersect tags) : entry < 2 ^ 32 := by
  obtain ⟨⟨tag, inside⟩, every⟩ := mem_intersect m tags entry member
  exact m.narrow tag entry (every tag inside)

theorem mem_refinements (tags : Finset TagId) (name : List Char) (kind : VfsEntryKind) :
    (name, kind) ∈ m.refinements tags ↔
      ∃ tag members, m.ontology.names.lookup (String.ofList name) = some tag ∧ tag ∉ tags ∧
        m.tagIndex.querySimple tag = some members ∧ m.intersect tags ∩ members ≠ ∅ ∧
        kind = .tagDir (insert tag tags) := by
  simp only [Mirrors.refinements, List.mem_filterMap, Prod.exists, mem_to_sorted,
    Option.bind_eq_bind, Option.bind_eq_some_iff, Option.ite_none_left_eq_some,
    Option.some.injEq, Prod.mk.injEq]
  constructor
  · rintro ⟨text, tag, found, new, members, store, shown, same, child⟩
    rw [← same, String.ofList_toList]
    exact ⟨tag, members, found, new, store, shown, child.symm⟩
  · rintro ⟨tag, members, found, new, store, shown, child⟩
    exact ⟨String.ofList name, tag, found, new, members, store, shown, String.toList_ofList,
      child.symm⟩

theorem number_of_entry (entry : Nat) (small : entry < 2 ^ 32) :
    (ObjectId.fromParts 0 entry).toU64.toNat = entry := by
  have wide : entry % 2 ^ 48 = entry := Nat.mod_eq_of_lt (Nat.lt_trans small (by decide))
  have raw := ObjectId.raw_from_parts 0 entry
  rw [wide] at raw
  simpa [ObjectId.toU64] using raw

private theorem object_of_entry (entry : Nat) (small : entry < 2 ^ 32) :
    ObjectId.fromParts 0 entry = ObjectId.fromU64 (UInt64.ofNat entry) := by
  have number := number_of_entry entry small
  have raw : (ObjectId.fromParts 0 entry).raw = UInt64.ofNat entry := by
    apply UInt64.toNat_inj.mp
    rw [UInt64.toNat_ofNat', Nat.mod_eq_of_lt (Nat.lt_trans small (by decide))]
    exact number
  rw [ObjectId.fromU64, ← raw]

private theorem low32_of_raw (raw : Nat) :
    low32Of (ObjectId.fromU64 (UInt64.ofNat raw)) = raw % 2 ^ 32 := by
  simp only [low32Of, ObjectId.localSeq, ObjectId.fromU64, UInt64.toNat_ofNat']
  omega

theorem mem_matched (tags : Finset TagId) (name : List Char) (kind : VfsEntryKind) :
    (name, kind) ∈ m.matched tags ↔
      ∃ entry ∈ m.intersect tags, name = Nat.toDigits 10 entry ∧
        kind = .tagObject (ObjectId.fromU64 (UInt64.ofNat entry)) := by
  simp only [Mirrors.matched, List.mem_map, SortedSet.mem_of_finset, Prod.mk.injEq]
  constructor
  · rintro ⟨entry, member, spelt, child⟩
    have small := intersect_narrow m tags entry member
    rw [number_of_entry entry small] at spelt
    rw [object_of_entry entry small] at child
    exact ⟨entry, member, spelt.symm, child.symm⟩
  · rintro ⟨entry, member, spelt, child⟩
    have small := intersect_narrow m tags entry member
    rw [← object_of_entry entry small] at child
    refine ⟨entry, member, ?_, child.symm⟩
    rw [number_of_entry entry small, spelt]

private theorem matched_distinct (tags : Finset TagId) :
    ((m.matched tags).map Prod.fst).Nodup := by
  rw [List.Nodup, Mirrors.matched, List.map_map, List.pairwise_map]
  apply List.Pairwise.imp_of_mem _ (SortedSet.increasing_of_finset (m.intersect tags))
  intro first second firstMember secondMember below same
  have firstSmall := intersect_narrow m tags first ((SortedSet.mem_of_finset _ _).mp firstMember)
  have secondSmall := intersect_narrow m tags second ((SortedSet.mem_of_finset _ _).mp secondMember)
  simp only [Function.comp_apply, number_of_entry first firstSmall,
    number_of_entry second secondSmall] at same
  have numbers := congrArg (Text.numeral 10) same
  rw [Text.numeral_to_digits 10 first (by decide) (by decide),
    Text.numeral_to_digits 10 second (by decide) (by decide)] at numbers
  exact absurd (Option.some.inj numbers) (ne_of_lt below)

/-- With a tag's name only a refinement is found, with another name only an object. -/
theorem derive_under_tag_dir_iff (tags : Finset TagId) (name : List Char) (kind : VfsEntryKind) :
    m.deriveChildUnderTagDir tags name = some kind ↔
      (name, kind) ∈ m.refinements tags ∨
        (m.ontology.names.lookup (String.ofList name) = none ∧
          ∃ raw, Text.parseUnsigned 10 (2 ^ 64) name = some raw ∧
            raw % 2 ^ 32 ∈ m.intersect tags ∧
            kind = .tagObject (ObjectId.fromU64 (UInt64.ofNat raw))) := by
  rw [mem_refinements, Mirrors.deriveChildUnderTagDir]
  rcases found : m.ontology.names.lookup (String.ofList name) with _ | tag
  · simp only [reduceCtorEq, false_and, exists_false, false_or, true_and, Option.bind_eq_bind,
      Option.bind_eq_some_iff, Option.ite_none_left_eq_some, not_not, Option.some.injEq,
      @eq_comm _ _ kind]
    constructor
    · intro ⟨raw, parsed, inside, child⟩
      rw [low32_of_raw raw] at inside
      exact ⟨raw, parsed, inside, child⟩
    · intro ⟨raw, parsed, inside, child⟩
      rw [← low32_of_raw raw] at inside
      exact ⟨raw, parsed, inside, child⟩
  · simp only [Option.some.injEq, reduceCtorEq, false_and, or_false, Option.bind_eq_bind,
      Option.ite_none_right_eq_some, Option.bind_eq_some_iff, @eq_comm _ _ kind]
    constructor
    · intro ⟨new, members, store, shown, child⟩
      exact ⟨tag, members, rfl, new, store, shown, child⟩
    · intro ⟨other, members, same, new, store, shown, child⟩
      subst same
      exact ⟨new, members, store, shown, child⟩

theorem derive_under_ctx_root_iff (name : List Char) (kind : VfsEntryKind) :
    m.deriveChildUnderCtxRoot name = some kind ↔
      ∃ tag, m.ontology.names.lookup (String.ofList name) = some tag ∧
        tag ∈ m.contextTrees.projections ∧ kind = .ctxDir tag [] := by
  simp only [Mirrors.deriveChildUnderCtxRoot, Option.bind_eq_bind, Option.bind_eq_some_iff,
    Option.ite_none_left_eq_some, not_not, Option.some.injEq, @eq_comm _ _ kind]

/-- The contexts with their names, before they are sorted. -/
theorem mem_context_names (name : String) (tag : TagId) :
    (name, tag) ∈ ((SortedSet.ofFinset m.contextTrees.projections.keys).filterMap fun tag =>
        (m.ontology.tags.lookup tag).map fun definition => (definition.name, tag)) ↔
      tag ∈ m.contextTrees.projections ∧
        ∃ definition, m.ontology.tags.lookup tag = some definition ∧ definition.name = name := by
  simp only [List.mem_filterMap, SortedSet.mem_of_finset, Finmap.mem_keys,
    Option.map_eq_some_iff, Prod.mk.injEq]
  constructor
  · rintro ⟨other, present, definition, found, called, same⟩
    subst same
    exact ⟨present, definition, found, called⟩
  · rintro ⟨present, definition, found, called⟩
    exact ⟨tag, present, definition, found, called, rfl⟩

theorem mem_ctx_root_children (inverse : m.NamesInverse) (name : List Char)
    (kind : VfsEntryKind) :
    (name, kind) ∈ m.ctxRootChildren ↔
      ∃ tag, m.ontology.names.lookup (String.ofList name) = some tag ∧
        tag ∈ m.contextTrees.projections ∧ kind = .ctxDir tag [] := by
  simp only [Mirrors.ctxRootChildren, List.mem_map, List.mem_insertionSort, Prod.exists,
    mem_context_names, Prod.mk.injEq]
  constructor
  · intro ⟨text, tag, ⟨present, defined⟩, same, child⟩
    rw [← same, String.ofList_toList]
    exact ⟨tag, (inverse text tag).mpr defined, present, child.symm⟩
  · intro ⟨tag, found, present, child⟩
    exact ⟨String.ofList name, tag, ⟨present, (inverse _ tag).mp found⟩, String.toList_ofList,
      child.symm⟩

private theorem ctx_root_distinct (inverse : m.NamesInverse) :
    (m.ctxRootChildren.map Prod.fst).Nodup := by
  rw [Mirrors.ctxRootChildren, List.map_map]
  have names : (((SortedSet.ofFinset m.contextTrees.projections.keys).filterMap fun tag =>
      (m.ontology.tags.lookup tag).map fun definition => (definition.name, tag)).map
        fun entry => entry.1.toList).Nodup := by
    rw [List.Nodup, List.pairwise_map]
    apply List.Pairwise.filterMap _ _
      (SortedSet.increasing_of_finset m.contextTrees.projections.keys)
    intro first second below left shownLeft right shownRight same
    obtain ⟨firstDefinition, firstFound, rfl⟩ := Option.map_eq_some_iff.mp shownLeft
    obtain ⟨secondDefinition, secondFound, rfl⟩ := Option.map_eq_some_iff.mp shownRight
    have called : firstDefinition.name = secondDefinition.name := String.toList_inj.mp same
    have firstNamed := (inverse _ first).mpr ⟨firstDefinition, firstFound, called⟩
    have secondNamed := (inverse _ second).mpr ⟨secondDefinition, secondFound, rfl⟩
    rw [firstNamed] at secondNamed
    exact absurd (Option.some.inj secondNamed) (ne_of_lt below)
  have sorted := List.perm_insertionSort (fun a b : String × TagId => a.1 ≤ b.1)
    ((SortedSet.ofFinset m.contextTrees.projections.keys).filterMap fun tag =>
      (m.ontology.tags.lookup tag).map fun definition => (definition.name, tag))
  exact (sorted.map fun entry => entry.1.toList).nodup_iff.mpr names

theorem candidate_path_eq (subPath name : List Char) :
    candidatePath subPath name = pathStem subPath ++ name := by
  rw [candidatePath, pathStem]
  split
  · rfl
  · simp

theorem tail_below_iff (stem path tail : List Char) :
    tailBelow stem path = some tail ↔ path = stem ++ tail ∧ tail ≠ [] := by
  rw [tailBelow]
  by_cases inside : stem.isPrefixOf path
  · obtain ⟨rest, rfl⟩ := List.isPrefixOf_iff_prefix.mp inside
    simp only [inside, not_true_eq_false, and_false, if_false, List.drop_left,
      Option.ite_none_left_eq_some, Option.some.injEq, List.append_cancel_left_eq]
    constructor
    · intro ⟨present, same⟩
      exact ⟨same, same ▸ present⟩
    · intro ⟨same, present⟩
      exact ⟨same ▸ present, same⟩
  · have outside : stem ≠ [] := by
      intro empty
      rw [empty] at inside
      exact inside List.isPrefixOf_nil_left
    simp only [outside, inside, ne_eq, not_false_eq_true, Bool.false_eq_true, and_self, if_true,
      reduceCtorEq, false_iff, not_and]
    intro same
    exact absurd (List.isPrefixOf_iff_prefix.mpr ⟨tail, same.symm⟩) inside

private theorem take_to_separator (name rest : List Char) (plain : '/' ∉ name) :
    (name ++ '/' :: rest).takeWhile (· ≠ '/') = name := by
  have kept : ∀ char ∈ name, decide (char ≠ '/') = true := by
    intro char member
    rw [decide_eq_true_eq]
    intro same
    exact plain (same ▸ member)
  rw [List.takeWhile_append_of_pos kept, List.takeWhile_cons_of_neg (by simp), List.append_nil]

private theorem child_dir_iff (tail name : List Char) :
    childDir tail = some name ↔ name ≠ [] ∧ '/' ∉ name ∧ ∃ rest, tail = name ++ '/' :: rest := by
  rw [childDir]
  constructor
  · intro shown
    split at shown
    · next separated =>
        obtain ⟨before, rest, rfl, plain⟩ := List.eq_append_cons_of_mem separated
        simp only [take_to_separator before rest plain, Option.ite_none_left_eq_some,
          Option.some.injEq] at shown
        obtain ⟨present, rfl⟩ := shown
        exact ⟨present, plain, rest, rfl⟩
    · cases shown
  · intro ⟨present, plain, rest, separated⟩
    rw [separated, if_pos (by simp), take_to_separator name rest plain, if_neg present]

private theorem child_file_iff (tail name : List Char) :
    childFile tail = some name ↔ '/' ∉ name ∧ tail = name := by
  rw [childFile, Option.ite_none_left_eq_some, Option.some.injEq]
  constructor
  · intro ⟨plain, same⟩
    exact ⟨same ▸ plain, same⟩
  · intro ⟨plain, same⟩
    exact ⟨same ▸ plain, same⟩

theorem mem_dir_names (projection : PathProjection) (subPath name : List Char) :
    name ∈ dirNames projection (pathStem subPath) ↔
      name ≠ [] ∧ '/' ∉ name ∧
        ∃ entry ∈ projection.paths, (candidatePath subPath name ++ ['/']).isPrefixOf entry.2 := by
  simp only [dirNames, SortedSet.mem_of_list, List.mem_filterMap, Option.bind_eq_some_iff,
    tail_below_iff, child_dir_iff, List.isPrefixOf_iff_prefix, candidate_path_eq]
  constructor
  · rintro ⟨entry, member, tail, ⟨below, _⟩, present, plain, rest, separated⟩
    refine ⟨present, plain, entry, member, rest, ?_⟩
    rw [below, separated]
    simp
  · rintro ⟨present, plain, entry, member, rest, below⟩
    refine ⟨entry, member, name ++ '/' :: rest, ⟨?_, by simp⟩, present, plain, rest, rfl⟩
    rw [← below]
    simp

theorem mem_file_names (projection : PathProjection) (subPath name : List Char) (oid : ObjectId) :
    (name, oid) ∈ fileNames projection (pathStem subPath) ↔
      name ≠ [] ∧ '/' ∉ name ∧ (oid, candidatePath subPath name) ∈ projection.paths := by
  simp only [fileNames, SortedSet.mem_of_list, List.mem_filterMap, Option.map_eq_some_iff,
    Option.bind_eq_some_iff, tail_below_iff, child_file_iff, candidate_path_eq, Prod.mk.injEq]
  constructor
  · rintro ⟨entry, member, shown, ⟨tail, ⟨below, present⟩, plain, same⟩, called, owner⟩
    subst same called owner
    rw [← below]
    exact ⟨present, plain, member⟩
  · rintro ⟨present, plain, member⟩
    exact ⟨(oid, pathStem subPath ++ name), member, name, ⟨name, ⟨rfl, present⟩, plain, rfl⟩,
      rfl, rfl⟩

/-- A file before a directory: what an exact path and a longer path lead to. -/
theorem derive_under_ctx_dir_iff (context : TagId) (subPath name : List Char)
    (kind : VfsEntryKind) :
    m.deriveChildUnderCtxDir context subPath name = some kind ↔
      ∃ projection, m.contextTrees.get context = some projection ∧
        ((∃ oid, projection.reverseLookup (candidatePath subPath name) = some oid ∧
            kind = .ctxObject context oid) ∨
          (projection.reverseLookup (candidatePath subPath name) = none ∧
            (∃ entry ∈ projection.paths,
              (candidatePath subPath name ++ ['/']).isPrefixOf entry.2) ∧
            kind = .ctxDir context (candidatePath subPath name))) := by
  rw [Mirrors.deriveChildUnderCtxDir, Option.bind_eq_bind, Option.bind_eq_some_iff]
  apply exists_congr
  intro projection
  apply and_congr_right
  intro _
  rcases found : projection.reverseLookup (candidatePath subPath name) with _ | oid
  · simp only [found, List.any_eq_true, Option.ite_none_right_eq_some, Option.some.injEq,
      reduceCtorEq, false_and, exists_false, false_or, true_and, @eq_comm _ _ kind]
  · simp only [found, Option.some.injEq, reduceCtorEq, false_and, or_false, @eq_comm _ _ kind]
    constructor
    · intro child
      exact ⟨oid, rfl, child⟩
    · intro ⟨other, same, child⟩
      rw [same]
      exact child

theorem mem_ctx_dir_children (context : TagId) (subPath name : List Char) (kind : VfsEntryKind) :
    (name, kind) ∈ m.ctxDirChildren context subPath ↔
      ∃ projection, m.contextTrees.get context = some projection ∧ name ≠ [] ∧ '/' ∉ name ∧
        (((∃ entry ∈ projection.paths,
            (candidatePath subPath name ++ ['/']).isPrefixOf entry.2) ∧
            kind = .ctxDir context (candidatePath subPath name)) ∨
          ∃ oid, (oid, candidatePath subPath name) ∈ projection.paths ∧
            kind = .ctxObject context oid) := by
  rw [Mirrors.ctxDirChildren]
  rcases m.contextTrees.get context with _ | projection
  · simp
  · simp only [List.mem_append, List.mem_map, Prod.mk.injEq, Option.some.injEq]
    constructor
    · rintro (⟨shown, member, rfl, rfl⟩ | ⟨⟨shown, oid⟩, member, rfl, rfl⟩)
      · obtain ⟨present, plain, below⟩ := (mem_dir_names projection subPath shown).mp member
        exact ⟨projection, rfl, present, plain, .inl ⟨below, rfl⟩⟩
      · obtain ⟨present, plain, owned⟩ := (mem_file_names projection subPath shown oid).mp member
        exact ⟨projection, rfl, present, plain, .inr ⟨oid, owned, rfl⟩⟩
    · rintro ⟨other, same, present, plain, ⟨below, child⟩ | ⟨oid, owned, child⟩⟩
      · subst same
        exact .inl ⟨name, (mem_dir_names projection subPath name).mpr ⟨present, plain, below⟩,
          rfl, child.symm⟩
      · subst same
        exact .inr ⟨(name, oid),
          (mem_file_names projection subPath name oid).mpr ⟨present, plain, owned⟩, rfl,
          child.symm⟩

theorem candidate_ends_plain (subPath name : List Char) (present : name ≠ []) (plain : '/' ∉ name) :
    (candidatePath subPath name).getLast? ≠ some '/' := by
  rw [candidate_path_eq, List.getLast?_append_of_ne_nil _ present]
  intro last
  exact plain (List.mem_of_getLast? last)

/-- A file shown in a directory is the only object with its path, which is no directory. -/
theorem file_stands_alone (projection : PathProjection) (single : OneEntryPerPath projection)
    (subPath name : List Char) (present : name ≠ []) (plain : '/' ∉ name) (oid : ObjectId)
    (owned : (oid, candidatePath subPath name) ∈ projection.paths) :
    (∀ other, (other, candidatePath subPath name) ∈ projection.paths → other = oid) ∧
      ¬ ∃ entry ∈ projection.paths,
        (candidatePath subPath name ++ ['/']).isPrefixOf entry.2 := by
  have ends := candidate_ends_plain subPath name present plain
  constructor
  · intro other shared
    exact (single _ shared _ owned ends).1 rfl
  · intro ⟨entry, member, below⟩
    exact (single _ owned entry member ends).2 below

private theorem file_names_distinct (projection : PathProjection)
    (single : OneEntryPerPath projection)
    (subPath : List Char) :
    ((fileNames projection (pathStem subPath)).map Prod.fst).Nodup := by
  rw [List.Nodup, List.pairwise_map]
  apply List.Pairwise.imp_of_mem _ (@SortedSet.increasing_of_list _ fileOrder _)
  intro ⟨name, oid⟩ ⟨other, owner⟩ member otherMember below same
  dsimp only at same
  subst same
  obtain ⟨present, plain, owned⟩ := (mem_file_names projection subPath name oid).mp member
  obtain ⟨-, -, shared⟩ := (mem_file_names projection subPath name owner).mp otherMember
  have alone := (file_stands_alone projection single subPath name present plain oid owned).1
  rw [alone owner shared] at below
  exact @lt_irrefl _ fileOrder.toPreorder _ below

private theorem ctx_dir_distinct (context : TagId)
    (single : ∀ projection, m.contextTrees.get context = some projection →
      OneEntryPerPath projection) (subPath : List Char) :
    ((m.ctxDirChildren context subPath).map Prod.fst).Nodup := by
  rw [Mirrors.ctxDirChildren]
  rcases found : m.contextTrees.get context with _ | projection
  · exact List.nodup_nil
  · simp only [List.map_append, List.map_map, Function.comp_def, List.map_id']
    rw [List.nodup_append]
    refine ⟨?_, file_names_distinct projection (single projection found) subPath, ?_⟩
    · exact (SortedSet.increasing_of_list _).imp fun below => ne_of_lt below
    · intro dir dirMember file fileMember same
      subst same
      obtain ⟨⟨name, oid⟩, member, rfl⟩ := List.mem_map.mp fileMember
      obtain ⟨present, plain, owned⟩ := (mem_file_names projection subPath name oid).mp member
      obtain ⟨-, -, below⟩ := (mem_dir_names projection subPath name).mp dirMember
      exact (file_stands_alone projection (single projection found) subPath name present plain
        oid owned).2 below

theorem children_derived (inverse : m.NamesInverse) (clear : m.Unambiguous) (kind : VfsEntryKind)
    (known : m.Known kind) (name : List Char) (child : VfsEntryKind)
    (listed : (name, child) ∈ m.children kind) : m.deriveChildKind kind name = some child := by
  cases kind with
  | root =>
      simp only [Mirrors.children, List.mem_cons, Prod.mk.injEq, List.not_mem_nil,
        or_false] at listed
      rcases listed with ⟨rfl, rfl⟩ | ⟨rfl, rfl⟩
      · rfl
      · rfl
  | tagsRoot =>
      exact (derive_under_tags_root_iff m name child).mpr
        ((mem_tags_root_children m name child).mp listed)
  | ctxRoot =>
      exact (derive_under_ctx_root_iff m name child).mpr
        ((mem_ctx_root_children m inverse name child).mp listed)
  | tagDir tags =>
      apply (derive_under_tag_dir_iff m tags name child).mpr
      rcases List.mem_append.mp listed with refined | object
      · exact .inl refined
      · right
        obtain ⟨entry, member, rfl, rfl⟩ := (mem_matched m tags name child).mp object
        obtain ⟨⟨tag, inside⟩, every⟩ := mem_intersect m tags entry member
        obtain ⟨tagName, named⟩ := known tag inside
        have small := intersect_narrow m tags entry member
        refine ⟨clear.numbers tagName tag named entry (every tag inside), entry, ?_, ?_, rfl⟩
        · exact Text.parse_unsigned_to_digits 10 (2 ^ 64) entry (by decide) (by decide)
            (Nat.lt_trans small (by decide))
        · rw [Nat.mod_eq_of_lt small]
          exact member
  | ctxDir context subPath =>
      obtain ⟨projection, found, present, plain, shown⟩ :=
        (mem_ctx_dir_children m context subPath name child).mp listed
      have single := clear.paths context projection found known
      refine (derive_under_ctx_dir_iff m context subPath name child).mpr ⟨projection, found, ?_⟩
      rcases hit : projection.reverseLookup (candidatePath subPath name) with _ | owner
      · right
        rcases shown with ⟨below, rfl⟩ | ⟨oid, owned, rfl⟩
        · exact ⟨rfl, below, rfl⟩
        · exact absurd owned (projection.reverse_lookup_none _ hit oid)
      · left
        have ownerPath := projection.reverse_lookup_some _ owner hit
        obtain ⟨alone, noDir⟩ :=
          file_stands_alone projection single subPath name present plain owner ownerPath
        rcases shown with ⟨below, rfl⟩ | ⟨oid, owned, rfl⟩
        · exact absurd below noDir
        · exact ⟨owner, rfl, by rw [alone oid owned]⟩
  | tagObject oid => cases listed
  | ctxObject context oid => cases listed

theorem derived_listed (inverse : m.NamesInverse) (kind : VfsEntryKind) (name : List Char)
    (plainName : m.Plain kind name) (child : VfsEntryKind)
    (derived : m.deriveChildKind kind name = some child) : (name, child) ∈ m.children kind := by
  cases kind with
  | root =>
      simp only [Mirrors.deriveChildKind] at derived
      simp only [Mirrors.children, List.mem_cons, Prod.mk.injEq, List.not_mem_nil, or_false]
      split at derived
      · next same => exact .inl ⟨same, (Option.some.inj derived).symm⟩
      · rw [Option.ite_none_right_eq_some, Option.some.injEq] at derived
        exact .inr ⟨derived.1, derived.2.symm⟩
  | tagsRoot =>
      exact (mem_tags_root_children m name child).mpr
        ((derive_under_tags_root_iff m name child).mp derived)
  | ctxRoot =>
      exact (mem_ctx_root_children m inverse name child).mpr
        ((derive_under_ctx_root_iff m name child).mp derived)
  | tagDir tags =>
      apply List.mem_append.mpr
      rcases (derive_under_tag_dir_iff m tags name child).mp derived with
        refined | ⟨unnamed, raw, parsed, inside, rfl⟩
      · exact .inl refined
      · right
        have spelt := plainName unnamed raw parsed inside
        have small : raw % 2 ^ 32 < 2 ^ 32 := Nat.mod_lt _ (by decide)
        have same : raw = raw % 2 ^ 32 := by
          rw [spelt, Text.parse_unsigned_to_digits 10 (2 ^ 64) (raw % 2 ^ 32) (by decide)
            (by decide) (Nat.lt_trans small (by decide))] at parsed
          exact (Option.some.inj parsed).symm
        rw [← same] at spelt inside
        exact (mem_matched m tags name _).mpr ⟨raw, inside, spelt, rfl⟩
  | ctxDir context subPath =>
      obtain ⟨projection, found, shown⟩ :=
        (derive_under_ctx_dir_iff m context subPath name child).mp derived
      have plain : name ≠ [] ∧ '/' ∉ name := by
        by_contra strange
        have nowhere := plainName (by tauto) projection found
        rcases shown with ⟨oid, hit, -⟩ | ⟨-, ⟨entry, member, below⟩, -⟩
        · exact (nowhere _ (projection.reverse_lookup_some _ oid hit)).1 rfl
        · exact (nowhere entry member).2 below
      refine (mem_ctx_dir_children m context subPath name child).mpr
        ⟨projection, found, plain.1, plain.2, ?_⟩
      rcases shown with ⟨oid, hit, rfl⟩ | ⟨-, below, rfl⟩
      · exact .inr ⟨oid, projection.reverse_lookup_some _ oid hit, rfl⟩
      · exact .inl ⟨below, rfl⟩
  | tagObject oid => cases derived
  | ctxObject context oid => cases derived

private theorem tag_dir_distinct (clear : m.Unambiguous) (tags : Finset TagId)
    (known : m.Known (.tagDir tags)) : ((m.tagDirChildren tags).map Prod.fst).Nodup := by
  rw [Mirrors.tagDirChildren, List.map_append, List.nodup_append]
  refine ⟨?_, matched_distinct m tags, ?_⟩
  · apply names_distinct
    intro entry child shown
    simp only [Option.ite_none_left_eq_some, Option.bind_eq_bind, Option.bind_eq_some_iff,
      Option.some.injEq] at shown
    obtain ⟨-, members, -, -, rfl⟩ := shown
    rfl
  · intro refined refinedMember object objectMember same
    obtain ⟨⟨name, kind⟩, member, rfl⟩ := List.mem_map.mp refinedMember
    obtain ⟨⟨number, objectKind⟩, objectListed, rfl⟩ := List.mem_map.mp objectMember
    dsimp only at same
    obtain ⟨tag, -, named, -⟩ := (mem_refinements m tags name kind).mp member
    obtain ⟨entry, inside, spelt, -⟩ := (mem_matched m tags number objectKind).mp objectListed
    obtain ⟨⟨holder, held⟩, every⟩ := mem_intersect m tags entry inside
    obtain ⟨holderName, holderNamed⟩ := known holder held
    have unnamed := clear.numbers holderName holder holderNamed entry (every holder held)
    rw [← spelt, ← same, named] at unnamed
    cases unnamed

theorem children_distinct (inverse : m.NamesInverse) (clear : m.Unambiguous)
    (kind : VfsEntryKind) (known : m.Known kind) : ((m.children kind).map Prod.fst).Nodup := by
  cases kind with
  | root =>
      change ["tags".toList, "ctx".toList].Nodup
      decide
  | tagsRoot =>
      apply names_distinct
      intro entry child shown
      simp only [Option.bind_eq_bind, Option.bind_eq_some_iff, Option.ite_none_left_eq_some,
        Option.some.injEq] at shown
      obtain ⟨members, -, -, rfl⟩ := shown
      rfl
  | ctxRoot => exact ctx_root_distinct m inverse
  | tagDir tags => exact tag_dir_distinct m clear tags known
  | ctxDir context subPath =>
      apply ctx_dir_distinct
      intro projection found
      exact clear.paths context projection found known
  | tagObject oid => exact List.nodup_nil
  | ctxObject context oid => exact List.nodup_nil

theorem derived_known (inverse : m.NamesInverse) (kind : VfsEntryKind) (known : m.Known kind)
    (name : List Char) (child : VfsEntryKind)
    (derived : m.deriveChildKind kind name = some child) : m.Known child := by
  cases kind with
  | root =>
      simp only [Mirrors.deriveChildKind] at derived
      split at derived
      · cases derived
        trivial
      · rw [Option.ite_none_right_eq_some, Option.some.injEq] at derived
        rw [← derived.2]
        trivial
  | tagsRoot =>
      obtain ⟨tag, -, named, -, -, rfl⟩ := (derive_under_tags_root_iff m name child).mp derived
      intro other member
      rw [Finset.mem_singleton.mp member]
      exact ⟨_, named⟩
  | ctxRoot =>
      obtain ⟨tag, named, -, rfl⟩ := (derive_under_ctx_root_iff m name child).mp derived
      obtain ⟨definition, found, -⟩ := (inverse _ tag).mp named
      exact Finmap.mem_of_lookup_eq_some found
  | tagDir tags =>
      rcases (derive_under_tag_dir_iff m tags name child).mp derived with
        refined | ⟨-, raw, -, -, rfl⟩
      · obtain ⟨tag, -, named, -, -, -, rfl⟩ := (mem_refinements m tags name child).mp refined
        intro other member
        rcases Finset.mem_insert.mp member with rfl | old
        · exact ⟨_, named⟩
        · exact known other old
      · trivial
  | ctxDir context subPath =>
      obtain ⟨projection, -, shown⟩ :=
        (derive_under_ctx_dir_iff m context subPath name child).mp derived
      rcases shown with ⟨oid, -, rfl⟩ | ⟨-, -, rfl⟩
      · trivial
      · exact known
  | tagObject oid => cases derived
  | ctxObject context oid => cases derived

end Mimisbrunnr.Fuse
