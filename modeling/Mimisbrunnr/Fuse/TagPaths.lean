import Mimisbrunnr.Fuse.TreeAgreement
import Mimisbrunnr.Lib.Runs

/-!
# Tag paths in any order

A path below `/tags` narrows one intersection, so the order of its names cannot
matter as long as no step is stopped early: every partial intersection contains
the whole one. What a table has cached does not matter either. Nothing is asked
of the mirrors but that two names are not one tag; names that parse as numbers
may be cached as an object or as a tag, every other name below `/tags` has the
kind that would be derived again.
-/

namespace Mimisbrunnr.Fuse

set_option autoImplicit false

open Mimisbrunnr.Index
open Mimisbrunnr.Lib
open Mimisbrunnr.Lib.FiniteMap
open Mimisbrunnr.Ontology
open Mimisbrunnr.Types

/-- The steps that can only lead to a tag or to the two roots. -/
def TagStep : VfsEntryKind → List Char → Prop
  | .root, _ => True
  | .tagsRoot, _ => True
  | .tagDir _, name => Text.parseUnsigned 10 (2 ^ 64) name = none
  | _, _ => False

theorem mem_intersect_iff (m : Mirrors) (tags : Finset TagId) (entry : Nat) :
    entry ∈ m.intersect tags ↔
      tags.Nonempty ∧ ∀ tag ∈ tags, entry ∈ m.tagIndex.membersOf tag := by
  constructor
  · exact mem_intersect m tags entry
  · rintro ⟨⟨tag, inside⟩, every⟩
    apply (m.tagIndex.mem_intersect _ entry).mpr
    constructor
    · exact List.ne_nil_of_mem ((SortedSet.mem_of_finset tags tag).mpr inside)
    · intro other listed
      exact every other ((SortedSet.mem_of_finset tags other).mp listed)

theorem mem_intersect_insert (m : Mirrors) (tag : TagId) (tags : Finset TagId)
    (present : tags.Nonempty) (entry : Nat) :
    entry ∈ m.intersect (Insert.insert tag tags) ↔
      entry ∈ m.tagIndex.membersOf tag ∧ entry ∈ m.intersect tags := by
  simp only [mem_intersect_iff, Finset.insert_nonempty, present, true_and,
    Finset.forall_mem_insert]

theorem derive_tags_root_iff (m : Mirrors) (name : List Char) (kind : VfsEntryKind) :
    m.deriveChildKind .tagsRoot name = some kind ↔
      ∃ tag, m.ontology.names.lookup (String.ofList name) = some tag ∧
        (m.tagIndex.membersOf tag).Nonempty ∧ kind = .tagDir {tag} := by
  apply (derive_under_tags_root_iff m name kind).trans
  constructor
  · rintro ⟨tag, members, found, stored, shown, same⟩
    refine ⟨tag, found, ?_, same⟩
    rw [TagIndex.membersOf, stored]
    exact Finset.nonempty_iff_ne_empty.mpr shown
  · rintro ⟨tag, found, ⟨entry, member⟩, same⟩
    rcases stored : m.tagIndex.querySimple tag with _ | members
    · simp [TagIndex.membersOf, stored] at member
    · rw [TagIndex.membersOf, stored, Option.getD_some] at member
      exact ⟨tag, members, found, stored, Finset.ne_empty_of_mem member, same⟩

theorem derive_tag_dir_iff (m : Mirrors) (tags : Finset TagId) (present : tags.Nonempty)
    (name : List Char) (plain : Text.parseUnsigned 10 (2 ^ 64) name = none)
    (kind : VfsEntryKind) :
    m.deriveChildKind (.tagDir tags) name = some kind ↔
      ∃ tag, m.ontology.names.lookup (String.ofList name) = some tag ∧ tag ∉ tags ∧
        (m.intersect (Insert.insert tag tags)).Nonempty ∧
        kind = .tagDir (Insert.insert tag tags) := by
  apply (derive_under_tag_dir_iff m tags name kind).trans
  rw [mem_refinements]
  constructor
  · rintro (⟨tag, members, found, new, stored, shown, same⟩ | ⟨-, raw, parsed, -⟩)
    · obtain ⟨entry, member⟩ := Finset.nonempty_iff_ne_empty.mpr shown
      rw [Finset.mem_inter] at member
      refine ⟨tag, found, new, ⟨entry, ?_⟩, same⟩
      rw [mem_intersect_insert m tag tags present, TagIndex.membersOf, stored]
      exact ⟨member.2, member.1⟩
    · rw [plain] at parsed
      cases parsed
  · rintro ⟨tag, found, new, ⟨entry, member⟩, same⟩
    rw [mem_intersect_insert m tag tags present] at member
    rcases stored : m.tagIndex.querySimple tag with _ | members
    · simp [TagIndex.membersOf, stored] at member
    · rw [TagIndex.membersOf, stored, Option.getD_some] at member
      refine .inl ⟨tag, members, found, new, stored, ?_, same⟩
      exact Finset.ne_empty_of_mem (Finset.mem_inter.mpr ⟨member.2, member.1⟩)

namespace Mirrors

def NamesApart (m : Mirrors) : Prop :=
  ∀ name other tag, m.ontology.names.lookup name = some tag →
    m.ontology.names.lookup other = some tag → name = other

def tagsOf (m : Mirrors) (names : List (List Char)) : Finset TagId :=
  (names.filterMap fun name => m.ontology.names.lookup (String.ofList name)).toFinset

/-- Every name is a tag's, and some member is in the bitmaps of all of them. -/
def Meet (m : Mirrors) (names : List (List Char)) : Prop :=
  (∀ name ∈ names, ∃ tag, m.ontology.names.lookup (String.ofList name) = some tag) ∧
    ∃ member, ∀ name ∈ names, ∀ tag,
      m.ontology.names.lookup (String.ofList name) = some tag →
        member ∈ m.tagIndex.membersOf tag

end Mirrors

theorem mem_tags_of (m : Mirrors) (names : List (List Char)) (tag : TagId) :
    tag ∈ m.tagsOf names ↔
      ∃ name ∈ names, m.ontology.names.lookup (String.ofList name) = some tag := by
  simp only [Mirrors.tagsOf, List.mem_toFinset, List.mem_filterMap]

private theorem meet_perm (m : Mirrors) (names other : List (List Char)) (perm : other.Perm names) :
    m.Meet other ↔ m.Meet names := by
  simp only [Mirrors.Meet, perm.mem_iff]

private theorem tags_of_perm (m : Mirrors) (names other : List (List Char))
    (perm : other.Perm names) :
    m.tagsOf other = m.tagsOf names := by
  ext tag
  simp only [mem_tags_of, perm.mem_iff]

theorem tags_of_cons (m : Mirrors) (name : List Char) (rest : List (List Char)) (tag : TagId)
    (found : m.ontology.names.lookup (String.ofList name) = some tag) :
    m.tagsOf (name :: rest) = Insert.insert tag (m.tagsOf rest) := by
  simp only [Mirrors.tagsOf, List.filterMap_cons, found, List.toFinset_cons]

/-- The step of a registered name, before the rest of the path is looked at. -/
theorem derive_registered (m : Mirrors) (tags : Finset TagId) (present : tags.Nonempty)
    (name : List Char) (plain : Text.parseUnsigned 10 (2 ^ 64) name = none) (tag : TagId)
    (found : m.ontology.names.lookup (String.ofList name) = some tag) (new : tag ∉ tags)
    (narrowed : (m.intersect (Insert.insert tag tags)).Nonempty) :
    m.deriveChildKind (.tagDir tags) name = some (.tagDir (Insert.insert tag tags)) :=
  (derive_tag_dir_iff m tags present name plain _).mpr ⟨tag, found, new, narrowed, rfl⟩

/-- From a directory with matches the rest of a path leads on just when one of them has all
the tags named, whatever their order. -/
theorem refine_along_iff (m : Mirrors) (apart : m.NamesApart) (names : List (List Char))
    (distinct : names.Nodup) (plain : ∀ name ∈ names, Text.parseUnsigned 10 (2 ^ 64) name = none) :
    ∀ tags : Finset TagId, (m.intersect tags).Nonempty →
      (∀ name ∈ names, ∀ tag, m.ontology.names.lookup (String.ofList name) = some tag →
        tag ∉ tags) →
      ∀ kind, names.foldlM m.deriveChildKind (.tagDir tags) = some kind ↔
        (∀ name ∈ names, ∃ tag, m.ontology.names.lookup (String.ofList name) = some tag) ∧
        (∃ member ∈ m.intersect tags, ∀ name ∈ names, ∀ tag,
          m.ontology.names.lookup (String.ofList name) = some tag →
            member ∈ m.tagIndex.membersOf tag) ∧
        kind = .tagDir (tags ∪ m.tagsOf names) := by
  induction names with
  | nil =>
      intro tags matched _ kind
      simp only [List.foldlM_nil, Option.pure_def, Option.some.injEq, List.not_mem_nil,
        false_implies, implies_true, and_true, true_and, Mirrors.tagsOf, List.filterMap_nil,
        List.toFinset_nil, Finset.union_empty, @eq_comm _ _ kind]
      exact (and_iff_right matched).symm
  | cons name rest ih =>
      intro tags matched new kind
      obtain ⟨absent, restDistinct⟩ := List.nodup_cons.mp distinct
      have present := (mem_intersect m tags _ matched.choose_spec).1
      have plainHead := plain name List.mem_cons_self
      rw [List.foldlM_cons, Option.bind_eq_bind]
      rcases found : m.ontology.names.lookup (String.ofList name) with _ | tag
      · -- an unknown name: neither side holds
        have nowhere : m.deriveChildKind (.tagDir tags) name = none := by
          rw [Option.eq_none_iff_forall_ne_some]
          intro middle first
          obtain ⟨tag, known, -⟩ := (derive_tag_dir_iff m tags present name plainHead middle).mp first
          rw [found] at known
          cases known
        rw [nowhere, Option.bind_none]
        constructor
        · intro impossible
          cases impossible
        · rintro ⟨registered, _⟩
          obtain ⟨tag, known⟩ := registered name List.mem_cons_self
          rw [found] at known
          cases known
      · have newTag := new name List.mem_cons_self tag found
        by_cases narrowed : (m.intersect (Insert.insert tag tags)).Nonempty
        · rw [derive_registered m tags present name plainHead tag found newTag narrowed,
            Option.bind_some, ih restDistinct _ _ narrowed]
          · rw [tags_of_cons m name rest tag found, Finset.insert_union, Finset.union_insert]
            simp only [mem_intersect_insert m tag tags present, List.forall_mem_cons, found,
              Option.some.injEq, exists_eq', true_and, forall_eq', and_assoc, and_left_comm]
          · intro other member otherTag known inside
            rcases Finset.mem_insert.mp inside with rfl | old
            · have same := String.ofList_inj.mp (apart _ _ _ known found)
              exact absent (same ▸ member)
            · exact new other (List.mem_cons_of_mem _ member) otherTag known old
          · intro other member
            exact plain other (List.mem_cons_of_mem _ member)
        · -- no match has the tag: the step fails, and with it every order
          have nowhere : m.deriveChildKind (.tagDir tags) name = none := by
            rw [Option.eq_none_iff_forall_ne_some]
            intro middle first
            obtain ⟨other, known, -, reached, -⟩ :=
              (derive_tag_dir_iff m tags present name plainHead middle).mp first
            rw [found] at known
            cases known
            exact narrowed reached
          rw [nowhere, Option.bind_none]
          constructor
          · intro impossible
            cases impossible
          · rintro ⟨_, ⟨member, inside, every⟩, _⟩
            have tagged := every name List.mem_cons_self tag found
            exact absurd
              ⟨member, (mem_intersect_insert m tag tags present member).mpr ⟨tagged, inside⟩⟩ narrowed

/-- A path of tags leads on from `/tags` just when its tags have a common member. -/
theorem tag_path_iff (m : Mirrors) (apart : m.NamesApart) (names : List (List Char))
    (present : names ≠ []) (distinct : names.Nodup)
    (plain : ∀ name ∈ names, Text.parseUnsigned 10 (2 ^ 64) name = none) (kind : VfsEntryKind) :
    names.foldlM m.deriveChildKind .tagsRoot = some kind ↔
      m.Meet names ∧ kind = .tagDir (m.tagsOf names) := by
  obtain ⟨name, rest, rfl⟩ := List.exists_cons_of_ne_nil present
  obtain ⟨absent, restDistinct⟩ := List.nodup_cons.mp distinct
  have single (tag : TagId) (member : Nat) :
      member ∈ m.intersect {tag} ↔ member ∈ m.tagIndex.membersOf tag := by
    simp [mem_intersect_iff]
  have along (tag : TagId) (found : m.ontology.names.lookup (String.ofList name) = some tag)
      (matched : (m.tagIndex.membersOf tag).Nonempty) :
      rest.foldlM m.deriveChildKind (.tagDir {tag}) = some kind ↔
        m.Meet (name :: rest) ∧ kind = .tagDir (m.tagsOf (name :: rest)) := by
    rw [refine_along_iff m apart rest restDistinct, tags_of_cons m name rest tag found,
      Mirrors.Meet, and_assoc]
    · simp only [single, List.forall_mem_cons, found, Option.some.injEq, exists_eq', true_and,
        forall_eq']
      rfl
    · intro other member
      exact plain other (List.mem_cons_of_mem _ member)
    · exact matched.imp fun member => (single tag member).mpr
    · intro other member otherTag known inside
      rw [Finset.mem_singleton.mp inside] at known
      have same := String.ofList_inj.mp (apart _ _ _ known found)
      exact absent (same ▸ member)
  rw [List.foldlM_cons, Option.bind_eq_bind, Option.bind_eq_some_iff]
  constructor
  · rintro ⟨middle, first, later⟩
    obtain ⟨tag, found, matched, rfl⟩ := (derive_tags_root_iff m name middle).mp first
    exact (along tag found matched).mp later
  · intro reached
    obtain ⟨tag, found⟩ := reached.1.1 name List.mem_cons_self
    obtain ⟨member, every⟩ := reached.1.2
    have matched : (m.tagIndex.membersOf tag).Nonempty :=
      ⟨member, every name List.mem_cons_self tag found⟩
    exact ⟨.tagDir {tag}, (derive_tags_root_iff m name _).mpr ⟨tag, found, matched, rfl⟩,
      (along tag found matched).mpr reached⟩

namespace TagVfs

/-- The entry is in the table below its parent, under a key that no other inode has. -/
structure Placed (vfs : TagVfs) (inode : Nat) (entry : VfsEntry) : Prop where
  below : inode < vfs.nextIno
  parent : ∃ parent parentEntry, entry.parent = some parent ∧
    vfs.entry parent = some parentEntry
  key : ∃! key, vfs.lookupIndex.lookup key = some inode

/-- What holds of a table whatever was called: entries and names belong together, and a step
that only a tag can be has the kind that would be derived again. -/
structure Sound (m : Mirrors) (vfs : TagVfs) : Prop where
  root : vfs.entry inodeRoot = some ⟨inodeRoot, .root, none⟩
  fresh : ∀ inode entry, vfs.entry inode = some entry → inode < vfs.nextIno
  numbered : ∀ inode entry, vfs.entry inode = some entry → entry.inode = inode
  named : ∀ inode entry, vfs.entry inode = some entry → inode ≠ inodeRoot →
    ∃ parent name, entry.parent = some parent ∧
      vfs.lookupIndex.lookup (parent, name) = some inode
  cached : ∀ parent name child, vfs.lookupIndex.lookup (parent, name) = some child →
    ∃ parentEntry childEntry, vfs.entry parent = some parentEntry ∧
      vfs.entry child = some childEntry ∧ 
      (TagStep parentEntry.kind name →
        m.deriveChildKind parentEntry.kind name = some childEntry.kind)
  single : ∀ key other child, vfs.lookupIndex.lookup key = some child →
    vfs.lookupIndex.lookup other = some child → key = other

private theorem Sound.placed {m : Mirrors} {vfs : TagVfs} (sound : Sound m vfs) (inode : Nat)
    (entry : VfsEntry) (found : vfs.entry inode = some entry) (below : inode ≠ inodeRoot) :
    Placed vfs inode entry := by
  obtain ⟨parent, name, above, located⟩ := sound.named inode entry found below
  obtain ⟨parentEntry, -, here, -⟩ := sound.cached parent name inode located
  constructor
  · exact sound.fresh inode entry found
  · exact ⟨parent, parentEntry, above, here⟩
  · refine ⟨(parent, name), located, ?_⟩
    intro other same
    exact sound.single other (parent, name) inode same located

private theorem lookup_index_new (parent : Nat) (name : List Char) (child : Nat)
    (found : new.lookupIndex.lookup (parent, name) = some child) :
    parent = inodeRoot ∧ ((name = "ctx".toList ∧ child = inodeCtxRoot) ∨
      (name = "tags".toList ∧ child = inodeTagsRoot)) := by
  simp only [new, lookup_insert_eq, Finmap.lookup_empty] at found
  split at found
  · next same =>
      cases same
      exact ⟨rfl, .inl ⟨rfl, (Option.some.inj found).symm⟩⟩
  · split at found
    · next same =>
        cases same
        exact ⟨rfl, .inr ⟨rfl, (Option.some.inj found).symm⟩⟩
    · cases found

theorem sound_new (m : Mirrors) : Sound m new where
  root := rfl
  fresh := (coherent_new m).fresh
  numbered := (coherent_new m).numbered
  named := by
    intro inode entry found below
    rcases entry_new inode entry found with ⟨rfl, -⟩ | ⟨rfl, rfl⟩ | ⟨rfl, rfl⟩
    · exact absurd rfl below
    · exact ⟨inodeRoot, "tags".toList, rfl, rfl⟩
    · exact ⟨inodeRoot, "ctx".toList, rfl, rfl⟩
  cached := by
    intro parent name child found
    obtain ⟨parentEntry, childEntry, here, present, derived⟩ :=
      (coherent_new m).cached parent name child found
    exact ⟨parentEntry, childEntry, here, present, fun _ => derived⟩
  single := by
    intro key other child found same
    obtain ⟨parent, name⟩ := key
    obtain ⟨otherParent, otherName⟩ := other
    obtain ⟨rfl, first⟩ := lookup_index_new parent name child found
    obtain ⟨rfl, second⟩ := lookup_index_new otherParent otherName child same
    rcases first with ⟨rfl, rfl⟩ | ⟨rfl, rfl⟩
    · rcases second with ⟨rfl, -⟩ | ⟨-, impossible⟩
      · rfl
      · cases impossible
    · rcases second with ⟨-, impossible⟩ | ⟨rfl, -⟩
      · cases impossible
      · rfl

/-- An allocation in a directory of the table, of the derived kind where the step can only be
a tag. -/
theorem allocate_sound (m : Mirrors) (vfs : TagVfs) (sound : Sound m vfs) (parent : Nat)
    (parentEntry : VfsEntry) (here : vfs.entry parent = some parentEntry) (name : List Char)
    (kind : VfsEntryKind) (derived : TagStep parentEntry.kind name →
      m.deriveChildKind parentEntry.kind name = some kind) :
    Sound m (vfs.allocateInode kind parent name).2 ∧
      Extends vfs (vfs.allocateInode kind parent name).2 ∧
      ∃ entry, (vfs.allocateInode kind parent name).2.entry
          (vfs.allocateInode kind parent name).1 = some entry ∧
        (TagStep parentEntry.kind name → entry.kind = kind) := by
  rw [allocateInode]
  rcases found : vfs.lookupIndex.lookup (parent, name) with _ | existing
  · have absent : ∀ key child, vfs.lookupIndex.lookup key = some child → child < vfs.nextIno := by
      intro key child located
      obtain ⟨-, childEntry, -, present, -⟩ := sound.cached key.1 key.2 child located
      exact sound.fresh child childEntry present
    have entries (inode : Nat) :
        (TagVfs.mk (vfs.entries.insert vfs.nextIno ⟨vfs.nextIno, kind, some parent⟩)
          (vfs.lookupIndex.insert (parent, name) vfs.nextIno) (vfs.nextIno + 1)).entry inode =
          if inode = vfs.nextIno then some ⟨vfs.nextIno, kind, some parent⟩
          else vfs.entry inode := by
      rw [TagVfs.entry, lookup_insert_eq]
      rfl
    have extended : Extends vfs
        { entries := vfs.entries.insert vfs.nextIno ⟨vfs.nextIno, kind, some parent⟩
          lookupIndex := vfs.lookupIndex.insert (parent, name) vfs.nextIno
          nextIno := vfs.nextIno + 1 } := by
      intro inode entry present
      rw [entries, if_neg (Nat.ne_of_lt (sound.fresh inode entry present))]
      exact present
    refine ⟨?_, extended, ⟨vfs.nextIno, kind, some parent⟩, ?_, fun _ => rfl⟩
    · exact
        { root := extended _ _ sound.root
          fresh := by
            intro inode entry present
            rw [entries] at present
            split at present
            · next last => exact last ▸ Nat.lt_succ_self _
            · exact Nat.lt_succ_of_lt (sound.fresh inode entry present)
          numbered := by
            intro inode entry present
            rw [entries] at present
            split at present
            · next last => 
                cases present
                exact last.symm
            · exact sound.numbered inode entry present
          named := by
            intro inode entry present below
            rw [entries] at present
            split at present
            · next last => 
                cases present
                refine ⟨parent, name, rfl, ?_⟩
                rw [lookup_insert_eq, if_pos rfl, last]
            · obtain ⟨above, text, same, located⟩ := sound.named inode entry present below
              refine ⟨above, text, same, ?_⟩
              rw [lookup_insert_eq, if_neg, located]
              rintro ⟨rfl, rfl⟩
              rw [found] at located
              cases located
          cached := by
            intro other text child located
            rw [lookup_insert_eq] at located
            split at located
            · next same =>
                cases same
                cases located
                refine ⟨parentEntry, ⟨vfs.nextIno, kind, some parent⟩,
                  extended parent parentEntry here, ?_, derived⟩
                rw [entries, if_pos rfl]
            · obtain ⟨otherEntry, childEntry, otherHere, childHere, child⟩ :=
                sound.cached other text child located
              exact ⟨otherEntry, childEntry, extended _ _ otherHere, extended _ _ childHere,
                child⟩
          single := by
            intro key other child located same
            rw [lookup_insert_eq] at located same
            split at located
            · next first =>
                split at same
                · next second => rw [first, second]
                · cases located
                  exact absurd (absent other _ same) (Nat.lt_irrefl _)
            · split at same
              · cases same
                exact absurd (absent key _ located) (Nat.lt_irrefl _)
              · exact sound.single key other child located same }
    · rw [entries, if_pos rfl]
  · obtain ⟨otherEntry, childEntry, otherHere, childHere, child⟩ :=
      sound.cached parent name existing found
    rw [here] at otherHere
    cases otherHere
    refine ⟨sound, Extends.refl vfs, childEntry, childHere, ?_⟩
    intro step
    have again := derived step
    rw [child step] at again
    exact Option.some.inj again

theorem lookup_sound (m : Mirrors) (vfs : TagVfs) (sound : Sound m vfs) (parent : Nat)
    (name : List Char) :
    Sound m (vfs.lookup m parent name).2 ∧
      (∀ parentEntry, vfs.entry parent = some parentEntry → TagStep parentEntry.kind name →
        (vfs.lookup m parent name).1.map VfsEntry.kind =
          m.deriveChildKind parentEntry.kind name) ∧
      ∀ entry, (vfs.lookup m parent name).1 = some entry →
        (vfs.lookup m parent name).2.entry entry.inode = some entry := by
  rw [lookup]
  rcases cached : vfs.lookupIndex.lookup (parent, name) with _ | child
  · rcases here : vfs.entry parent with _ | parentEntry
    · exact ⟨sound, by simp, by simp⟩
    · rcases derived : m.deriveChildKind parentEntry.kind name with _ | kind
      · simp only [derived, Option.some.injEq, forall_eq']
        exact ⟨sound, fun _ => rfl, by simp⟩
      · obtain ⟨after, -, entry, present, same⟩ :=
          allocate_sound m vfs sound parent parentEntry here name kind fun _ => derived
        simp only [derived, present, Option.some.injEq, forall_eq']
        refine ⟨after, ?_, ?_⟩
        · intro step
          rw [Option.map_some, same step]
        · rw [after.numbered _ _ present]
          exact present
  · obtain ⟨parentEntry, childEntry, here, present, derived⟩ :=
      sound.cached parent name child cached
    simp only [present, here, Option.some.injEq, forall_eq']
    refine ⟨sound, ?_, ?_⟩
    · intro step
      rw [derived step, Option.map_some]
    · rw [sound.numbered _ _ present]
      exact present

/-- The loop of a listing shows every given name once more, whatever its inode is. -/
theorem list_children_sound (m : Mirrors) (parent : Nat) (parentEntry : VfsEntry)
    (children : List (List Char × VfsEntryKind))
    (derived : ∀ name kind, (name, kind) ∈ children → TagStep parentEntry.kind name →
      m.deriveChildKind parentEntry.kind name = some kind) :
    ∀ vfs : TagVfs, Sound m vfs → vfs.entry parent = some parentEntry →
      Sound m (listChildren parent children vfs).2 ∧
        (listChildren parent children vfs).1.map Prod.fst = children.map Prod.fst := by
  induction children with
  | nil =>
      intro vfs sound _
      exact ⟨sound, rfl⟩
  | cons child rest ih =>
      intro vfs sound here
      obtain ⟨name, kind⟩ := child
      obtain ⟨after, extended, entry, present, -⟩ :=
        allocate_sound m vfs sound parent parentEntry here name kind
          (derived name kind List.mem_cons_self)
      have restDerived : ∀ other otherKind, (other, otherKind) ∈ rest →
          TagStep parentEntry.kind other →
          m.deriveChildKind parentEntry.kind other = some otherKind := by
        intro other otherKind member
        exact derived other otherKind (List.mem_cons_of_mem _ member)
      obtain ⟨last, shown⟩ := ih restDerived _ after (extended parent parentEntry here)
      simp only [listChildren, present, List.map_cons, shown]
      exact ⟨last, trivial⟩

theorem listed_derived (m : Mirrors) (kind : VfsEntryKind) (name : List Char)
    (child : VfsEntryKind) (listed : (name, child) ∈ m.children kind)
    (step : TagStep kind name) : m.deriveChildKind kind name = some child := by
  cases kind with
  | root =>
      simp only [Mirrors.children, List.mem_cons, Prod.mk.injEq, List.not_mem_nil,
        or_false] at listed
      rcases listed with ⟨rfl, rfl⟩ | ⟨rfl, rfl⟩
      · rfl
      · rfl
  | tagsRoot =>
      exact (derive_under_tags_root_iff m name child).mpr
        ((mem_tags_root_children m name child).mp listed)
  | tagDir tags =>
      rcases List.mem_append.mp listed with refined | object
      · exact (derive_under_tag_dir_iff m tags name child).mpr (.inl refined)
      · -- the name of an object parses
        obtain ⟨entry, member, rfl, rfl⟩ := (mem_matched m tags name child).mp object
        have small := intersect_narrow m tags entry member
        have parsed := Text.parse_unsigned_to_digits 10 (2 ^ 64) entry (by decide) (by decide)
          (Nat.lt_trans small (by decide))
        rw [TagStep, parsed] at step
        cases step
  | ctxRoot => cases step
  | ctxDir context subPath => cases step
  | tagObject oid => cases step
  | ctxObject context oid => cases step

theorem readdir_sound (m : Mirrors) (vfs : TagVfs) (sound : Sound m vfs) (inode : Nat) :
    Sound m (vfs.readdir m inode).2 ∧
      ∀ tags parent, vfs.entry inode = some ⟨inode, .tagDir tags, parent⟩ →
        (vfs.readdir m inode).1.map Prod.fst = (m.tagDirChildren tags).map Prod.fst := by
  rw [readdir]
  rcases here : vfs.entry inode with _ | ⟨number, kind, above⟩
  · exact ⟨sound, by simp⟩
  · have listed := list_children_sound m inode ⟨number, kind, above⟩ (m.children kind)
      (listed_derived m kind) vfs sound here
    cases kind with
    | root => exact ⟨sound, by simp⟩
    | tagsRoot => exact ⟨listed.1, by simp⟩
    | ctxRoot => exact ⟨listed.1, by simp⟩
    | tagDir currentTags =>
        refine ⟨listed.1, ?_⟩
        intro tags parent same
        cases same
        exact listed.2
    | ctxDir context subPath => exact ⟨listed.1, by simp⟩
    | tagObject oid => exact ⟨sound, by simp⟩
    | ctxObject context oid => exact ⟨sound, by simp⟩

private theorem perform_sound (m : Mirrors) (vfs : TagVfs) (call : Call) (sound : Sound m vfs) :
    Sound m (call.perform m vfs) := by
  cases call with
  | lookup parent name => exact (lookup_sound m vfs sound parent name).1
  | readdir inode => exact (readdir_sound m vfs sound inode).1

private theorem session_sound (m : Mirrors) (calls : List Call) : Sound m (session m calls) :=
  Runs.run_invariant (Call.perform m) (Sound m) new (sound_new m) (perform_sound m) calls

/-- The table after the lookups of a path. -/
def resolved (m : Mirrors) : List (List Char) → TagVfs → Nat → TagVfs
  | [], vfs, _ => vfs
  | name :: rest, vfs, inode =>
      match vfs.lookup m inode name with
      | (none, after) => after
      | (some entry, after) => resolved m rest after entry.inode

/-- Each step of the path can only be a tag. -/
def TagSteps (m : Mirrors) : VfsEntryKind → List (List Char) → Prop
  | _, [] => True
  | kind, name :: rest =>
      TagStep kind name ∧ ∀ child, m.deriveChildKind kind name = some child → TagSteps m child rest

private theorem resolve_sound (m : Mirrors) (path : List (List Char)) :
    ∀ vfs : TagVfs, Sound m vfs → ∀ inode entry, vfs.entry inode = some entry →
      TagSteps m entry.kind path →
      Sound m (resolved m path vfs inode) ∧
        (resolve m path vfs inode).map VfsEntry.kind =
          path.foldlM m.deriveChildKind entry.kind ∧
        ∀ last, resolve m path vfs inode = some last →
          (resolved m path vfs inode).entry last.inode = some last := by
  induction path with
  | nil =>
      intro vfs sound inode entry here _
      rw [resolve, resolved, here]
      refine ⟨sound, rfl, ?_⟩
      intro last same
      cases same
      rw [sound.numbered inode entry here]
      exact here
  | cons name rest ih =>
      intro vfs sound inode entry here steps
      obtain ⟨after, kinds, present⟩ := lookup_sound m vfs sound inode name
      have first := kinds entry here steps.1
      rw [List.foldlM_cons, ← first, resolve, resolved]
      rcases answer : vfs.lookup m inode name with ⟨_ | child, next⟩
      · rw [answer] at after
        exact ⟨after, rfl, by simp⟩
      · rw [answer] at after present first
        exact ih next after child.inode child (present child rfl)
          (steps.2 child.kind first.symm)

private theorem tag_steps_below (m : Mirrors) (names : List (List Char))
    (plain : ∀ name ∈ names, Text.parseUnsigned 10 (2 ^ 64) name = none) :
    ∀ tags : Finset TagId, tags.Nonempty → TagSteps m (.tagDir tags) names := by
  induction names with
  | nil =>
      intro tags _
      trivial
  | cons name rest ih =>
      intro tags present
      have head := plain name List.mem_cons_self
      refine ⟨head, ?_⟩
      intro child derived
      obtain ⟨tag, -, -, -, rfl⟩ := (derive_tag_dir_iff m tags present name head child).mp derived
      apply ih
      · intro other member
        exact plain other (List.mem_cons_of_mem _ member)
      · exact Finset.insert_nonempty tag tags

private theorem tag_steps_of_path (m : Mirrors) (names : List (List Char))
    (plain : ∀ name ∈ names, Text.parseUnsigned 10 (2 ^ 64) name = none) :
    TagSteps m .root ("tags".toList :: names) := by
  refine ⟨trivial, ?_⟩
  intro child derived
  cases derived
  cases names with
  | nil => trivial
  | cons name rest =>
      refine ⟨trivial, ?_⟩
      intro first reached
      obtain ⟨tag, -, -, rfl⟩ := (derive_tags_root_iff m name first).mp reached
      apply tag_steps_below
      · intro other member
        exact plain other (List.mem_cons_of_mem _ member)
      · exact Finset.singleton_nonempty tag

end TagVfs

open TagVfs

/-- What a tag path leads to from the root, in any table. -/
theorem tag_path_resolved (m : Mirrors) (apart : m.NamesApart) (names : List (List Char))
    (present : names ≠ []) (distinct : names.Nodup)
    (plain : ∀ name ∈ names, Text.parseUnsigned 10 (2 ^ 64) name = none) (vfs : TagVfs)
    (sound : Sound m vfs) :
    ((resolve m ("tags".toList :: names) vfs inodeRoot).isSome ↔ m.Meet names) ∧
      ∀ entry, resolve m ("tags".toList :: names) vfs inodeRoot = some entry →
        entry.kind = .tagDir (m.tagsOf names) ∧
          ((resolved m ("tags".toList :: names) vfs inodeRoot).readdir m entry.inode).1.map
              Prod.fst = (m.tagDirChildren (m.tagsOf names)).map Prod.fst := by
  obtain ⟨after, kinds, here⟩ := resolve_sound m ("tags".toList :: names) vfs sound inodeRoot _
    sound.root (tag_steps_of_path m names plain)
  have reached (kind : VfsEntryKind) :
      (resolve m ("tags".toList :: names) vfs inodeRoot).map VfsEntry.kind = some kind ↔
        m.Meet names ∧ kind = .tagDir (m.tagsOf names) := by
    rw [kinds]
    exact tag_path_iff m apart names present distinct plain kind
  constructor
  · constructor
    · intro found
      obtain ⟨entry, same⟩ := Option.isSome_iff_exists.mp found
      exact ((reached entry.kind).mp (by rw [same, Option.map_some])).1
    · intro meet
      have some := (reached (.tagDir (m.tagsOf names))).mpr ⟨meet, rfl⟩
      rw [← Option.isSome_map, some, Option.isSome_some]
  · intro entry found
    have kind := ((reached entry.kind).mp (by rw [found, Option.map_some])).2
    refine ⟨kind, (readdir_sound m _ after entry.inode).2 _ entry.parent ?_⟩
    rw [here entry found, ← kind]

/-- Tag paths do not depend on the order of their names. In every session, a path of distinct
names that are not numbers resolves below `/tags` just when all are names of tags with a common
member, so in every other order and session it does too; the directories have the same tags and
list the same names. And every inode but the root has its place in the table. -/
theorem tag_paths_order_independent (m : Mirrors) (apart : m.NamesApart)
    (names : List (List Char)) (present : names ≠ []) (distinct : names.Nodup)
    (plain : ∀ name ∈ names, Text.parseUnsigned 10 (2 ^ 64) name = none)
    (other : List (List Char)) (perm : other.Perm names) (calls later : List Call) :
    ((resolve m ("tags".toList :: names) (session m calls) inodeRoot).isSome ↔
      (∀ name ∈ names, ∃ tag, m.ontology.names.lookup (String.ofList name) = some tag) ∧
        ∃ member, ∀ name ∈ names, ∀ tag,
          m.ontology.names.lookup (String.ofList name) = some tag →
            member ∈ m.tagIndex.membersOf tag) ∧
    ((resolve m ("tags".toList :: other) (session m later) inodeRoot).isSome ↔
      (resolve m ("tags".toList :: names) (session m calls) inodeRoot).isSome) ∧
    (∀ entry otherEntry,
      resolve m ("tags".toList :: names) (session m calls) inodeRoot = some entry →
      resolve m ("tags".toList :: other) (session m later) inodeRoot = some otherEntry →
        (∃ tags, entry.kind = .tagDir tags ∧ otherEntry.kind = .tagDir tags ∧
          ∀ tag, tag ∈ tags ↔
            ∃ name ∈ names, m.ontology.names.lookup (String.ofList name) = some tag) ∧
        ((resolved m ("tags".toList :: names) (session m calls) inodeRoot).readdir m
            entry.inode).1.map Prod.fst =
          ((resolved m ("tags".toList :: other) (session m later) inodeRoot).readdir m
            otherEntry.inode).1.map Prod.fst) ∧
    ∀ inode entry, (session m calls).entry inode = some entry → inode ≠ inodeRoot →
      Placed (session m calls) inode entry := by
  have ordered := tag_path_resolved m apart names present distinct plain _ (session_sound m calls)
  have permuted := tag_path_resolved m apart other (fun empty => present (by simpa [empty] using perm))
    (perm.nodup_iff.mpr distinct) (fun name member => plain name (perm.mem_iff.mp member)) _
    (session_sound m later)
  rw [meet_perm m names other perm, tags_of_perm m names other perm] at permuted
  refine ⟨ordered.1, permuted.1.trans ordered.1.symm, ?_, (session_sound m calls).placed⟩
  intro entry otherEntry found otherFound
  obtain ⟨kind, listed⟩ := ordered.2 entry found
  obtain ⟨otherKind, otherListed⟩ := permuted.2 otherEntry otherFound
  exact ⟨⟨m.tagsOf names, kind, otherKind, mem_tags_of m names⟩, listed.trans otherListed.symm⟩

/-- Object 7 with the tags `a` and `b`. -/
def twoTags : Mirrors :=
  { tagIndex := (TagIndex.new.addMember 1 (ObjectId.fromParts 0 7)).addMember 2
      (ObjectId.fromParts 0 7)
    ontology :=
      { OntologyState.new with names := ((∅ : FMap String TagId).insert "a" 1).insert "b" 2 }
    contextTrees := { projections := ∅ }
    narrow := by
      intro tag entry member
      rcases (TagIndex.mem_add_member _ _ _ _ _).mp member with ⟨-, rfl⟩ | first
      · decide
      · rcases (TagIndex.mem_add_member _ _ _ _ _).mp first with ⟨-, rfl⟩ | old
        · decide
        · simp at old }

private theorem two_tags_apart : twoTags.NamesApart := by
  intro name other tag found same
  simp only [twoTags, lookup_insert_eq, Finmap.lookup_empty] at found same
  split at found
  · next first =>
      cases found
      split at same
      · next second => rw [first, second]
      · split at same
        · cases same
        · cases same
  · split at found
    · next first =>
        cases found
        split at same
        · cases same
        · split at same
          · next second => rw [first, second]
          · cases same
    · cases found

theorem tag_paths_order_independent_pair :
    twoTags.NamesApart ∧
      (resolve twoTags ["tags".toList, "a".toList, "b".toList]
        (session twoTags []) inodeRoot).isSome = true ∧
      (resolve twoTags ["tags".toList, "b".toList, "a".toList]
        (session twoTags [.readdir 2, .lookup 4 "7".toList]) inodeRoot).isSome = true := by
  have found : (resolve twoTags ["tags".toList, "a".toList, "b".toList]
      (session twoTags []) inodeRoot).isSome = true := by decide +kernel
  have plain : ∀ name ∈ ["a".toList, "b".toList],
      Text.parseUnsigned 10 (2 ^ 64) name = none := by
    intro name member
    rcases List.mem_pair.mp member with rfl | rfl
    · decide
    · decide
  exact ⟨two_tags_apart, found,
    (tag_paths_order_independent twoTags two_tags_apart ["a".toList, "b".toList] (by decide)
      (by decide) plain ["b".toList, "a".toList] (List.Perm.swap _ _ _) []
      [.readdir 2, .lookup 4 "7".toList]).2.1.mpr found⟩

end Mimisbrunnr.Fuse
