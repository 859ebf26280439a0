import Mimisbrunnr.Fuse.Children

/-!
# One tree for lookup and readdir

Whatever was looked up and listed before, an inode table stays coherent: every
name in it leads to the kind that the name parser derives. Where the mirrors
are unambiguous a listing only adds such names, so the answers of both calls
are those of the derivation, and no earlier call can change them.
-/

namespace Mimisbrunnr.Fuse

set_option autoImplicit false

open Mimisbrunnr.Index
open Mimisbrunnr.Lib.FiniteMap
open Mimisbrunnr.Ontology
open Mimisbrunnr.Types
open Mimisbrunnr.Unix

namespace TagVfs

structure Coherent (m : Mirrors) (vfs : TagVfs) : Prop where
  root : vfs.entry inodeRoot = some ⟨inodeRoot, .root, none⟩
  tagsRoot : vfs.entry inodeTagsRoot = some ⟨inodeTagsRoot, .tagsRoot, some inodeRoot⟩
  ctxRoot : vfs.entry inodeCtxRoot = some ⟨inodeCtxRoot, .ctxRoot, some inodeRoot⟩
  fresh : ∀ inode entry, vfs.entry inode = some entry → inode < vfs.nextIno
  numbered : ∀ inode entry, vfs.entry inode = some entry → entry.inode = inode
  known : ∀ inode entry, vfs.entry inode = some entry → m.Known entry.kind
  cached : ∀ parent name child, vfs.lookupIndex.lookup (parent, name) = some child →
    ∃ parentEntry childEntry, vfs.entry parent = some parentEntry ∧
      vfs.entry child = some childEntry ∧
      m.deriveChildKind parentEntry.kind name = some childEntry.kind

def Extends (before after : TagVfs) : Prop :=
  ∀ inode entry, before.entry inode = some entry → after.entry inode = some entry

theorem Extends.refl (vfs : TagVfs) : Extends vfs vfs := by
  intro inode entry found
  exact found

theorem entry_new (inode : Nat) (entry : VfsEntry) (found : new.entry inode = some entry) :
    (inode = inodeRoot ∧ entry = ⟨inodeRoot, .root, none⟩) ∨
      (inode = inodeTagsRoot ∧ entry = ⟨inodeTagsRoot, .tagsRoot, some inodeRoot⟩) ∨
      (inode = inodeCtxRoot ∧ entry = ⟨inodeCtxRoot, .ctxRoot, some inodeRoot⟩) := by
  simp only [TagVfs.entry, new, lookup_insert_eq, Finmap.lookup_empty] at found
  split at found
  · next same => exact .inr (.inr ⟨same, (Option.some.inj found).symm⟩)
  · split at found
    · next same => exact .inr (.inl ⟨same, (Option.some.inj found).symm⟩)
    · split at found
      · next same => exact .inl ⟨same, (Option.some.inj found).symm⟩
      · cases found

theorem coherent_new (m : Mirrors) : Coherent m new where
  root := rfl
  tagsRoot := rfl
  ctxRoot := rfl
  fresh := by
    intro inode entry found
    rcases entry_new inode entry found with ⟨rfl, -⟩ | ⟨rfl, -⟩ | ⟨rfl, -⟩
    · decide
    · decide
    · decide
  numbered := by
    intro inode entry found
    rcases entry_new inode entry found with ⟨rfl, rfl⟩ | ⟨rfl, rfl⟩ | ⟨rfl, rfl⟩
    · rfl
    · rfl
    · rfl
  known := by
    intro inode entry found
    rcases entry_new inode entry found with ⟨-, rfl⟩ | ⟨-, rfl⟩ | ⟨-, rfl⟩
    · trivial
    · trivial
    · trivial
  cached := by
    intro parent name child found
    simp only [new, lookup_insert_eq, Finmap.lookup_empty] at found
    split at found
    · next same =>
        cases same
        cases found
        exact ⟨_, _, rfl, rfl, rfl⟩
    · split at found
      · next same =>
          cases same
          cases found
          exact ⟨_, _, rfl, rfl, rfl⟩
      · cases found

/-- An allocation of the derived kind: the table stays coherent, keeps what it had, and
the inode has that kind, whether it is new or not. -/
theorem allocate_coherent (m : Mirrors) (inverse : m.NamesInverse) (vfs : TagVfs)
    (coherent : Coherent m vfs) (parent : Nat) (parentEntry : VfsEntry)
    (here : vfs.entry parent = some parentEntry) (name : List Char) (kind : VfsEntryKind)
    (derived : m.deriveChildKind parentEntry.kind name = some kind) :
    Coherent m (vfs.allocateInode kind parent name).2 ∧
      Extends vfs (vfs.allocateInode kind parent name).2 ∧
      ∃ entry, (vfs.allocateInode kind parent name).2.entry
          (vfs.allocateInode kind parent name).1 = some entry ∧ entry.kind = kind := by
  rw [allocateInode]
  rcases found : vfs.lookupIndex.lookup (parent, name) with _ | existing
  · have extended : Extends vfs
        { entries := vfs.entries.insert vfs.nextIno ⟨vfs.nextIno, kind, some parent⟩
          lookupIndex := vfs.lookupIndex.insert (parent, name) vfs.nextIno
          nextIno := vfs.nextIno + 1 } := by
      intro inode entry present
      have below := coherent.fresh inode entry present
      simp only [TagVfs.entry, lookup_insert_eq, if_neg (Nat.ne_of_lt below)]
      exact present
    have split : ∀ inode entry,
        (vfs.entries.insert vfs.nextIno ⟨vfs.nextIno, kind, some parent⟩).lookup inode =
          some entry →
        (inode = vfs.nextIno ∧ entry = ⟨vfs.nextIno, kind, some parent⟩) ∨
          vfs.entry inode = some entry := by
      intro inode entry present
      rw [lookup_insert_eq] at present
      by_cases last : inode = vfs.nextIno
      · rw [if_pos last] at present
        exact .inl ⟨last, (Option.some.inj present).symm⟩
      · rw [if_neg last] at present
        exact .inr present
    refine ⟨?_, extended, ⟨vfs.nextIno, kind, some parent⟩, ?_, rfl⟩
    · exact
        { root := extended _ _ coherent.root
          tagsRoot := extended _ _ coherent.tagsRoot
          ctxRoot := extended _ _ coherent.ctxRoot
          fresh := by
            intro inode entry present
            rcases split inode entry present with ⟨rfl, -⟩ | old
            · exact Nat.lt_succ_self _
            · exact Nat.lt_succ_of_lt (coherent.fresh inode entry old)
          numbered := by
            intro inode entry present
            rcases split inode entry present with ⟨rfl, rfl⟩ | old
            · rfl
            · exact coherent.numbered inode entry old
          known := by
            intro inode entry present
            rcases split inode entry present with ⟨-, rfl⟩ | old
            · exact derived_known m inverse parentEntry.kind
                (coherent.known parent parentEntry here) name kind derived
            · exact coherent.known inode entry old
          cached := by
            intro other text child located
            simp only [lookup_insert_eq] at located
            split at located
            · next same =>
                cases same
                cases located
                refine ⟨parentEntry, ⟨vfs.nextIno, kind, some parent⟩,
                  extended parent parentEntry here, ?_, derived⟩
                simp only [TagVfs.entry, lookup_insert_eq, if_true]
            · obtain ⟨otherEntry, childEntry, otherHere, childHere, child⟩ :=
                coherent.cached other text child located
              exact ⟨otherEntry, childEntry, extended _ _ otherHere, extended _ _ childHere,
                child⟩ }
    · simp only [TagVfs.entry, lookup_insert_eq, if_true]
  · obtain ⟨otherEntry, childEntry, otherHere, childHere, child⟩ :=
      coherent.cached parent name existing found
    rw [here] at otherHere
    cases otherHere
    rw [derived] at child
    exact ⟨coherent, Extends.refl vfs, childEntry, childHere, (Option.some.inj child).symm⟩

theorem lookup_spec (m : Mirrors) (inverse : m.NamesInverse) (vfs : TagVfs)
    (coherent : Coherent m vfs) (parent : Nat) (name : List Char) :
    Coherent m (vfs.lookup m parent name).2 ∧
      (vfs.lookup m parent name).1.map VfsEntry.kind =
        (vfs.entry parent).bind (fun entry => m.deriveChildKind entry.kind name) ∧
      ∀ entry, (vfs.lookup m parent name).1 = some entry →
        (vfs.lookup m parent name).2.entry entry.inode = some entry := by
  rw [lookup]
  rcases cached : vfs.lookupIndex.lookup (parent, name) with _ | child
  · rcases here : vfs.entry parent with _ | parentEntry
    · exact ⟨coherent, rfl, by simp⟩
    · rcases derived : m.deriveChildKind parentEntry.kind name with _ | kind
      · simp only [derived, Option.bind_some]
        exact ⟨coherent, rfl, by simp⟩
      · obtain ⟨after, -, entry, present, same⟩ :=
          allocate_coherent m inverse vfs coherent parent parentEntry here name kind derived
        simp only [derived, present, Option.bind_some]
        refine ⟨after, by rw [Option.map_some, same], ?_⟩
        intro other found
        cases found
        rw [after.numbered _ _ present]
        exact present
  · obtain ⟨parentEntry, childEntry, here, present, derived⟩ :=
      coherent.cached parent name child cached
    simp only [present, here, Option.bind_some]
    refine ⟨coherent, by rw [Option.map_some, derived], ?_⟩
    intro other found
    cases found
    rw [coherent.numbered _ _ present]
    exact present

/-- The loop of a listing shows the given children with the given kinds, if each is the
derived one. -/
theorem list_children_spec (m : Mirrors) (inverse : m.NamesInverse) (parent : Nat)
    (parentEntry : VfsEntry) (children : List (List Char × VfsEntryKind))
    (derived : ∀ name kind, (name, kind) ∈ children →
      m.deriveChildKind parentEntry.kind name = some kind) :
    ∀ vfs : TagVfs, Coherent m vfs → vfs.entry parent = some parentEntry →
      Coherent m (listChildren parent children vfs).2 ∧
        (listChildren parent children vfs).1.map (fun shown => (shown.1, shown.2.kind)) =
          children := by
  induction children with
  | nil =>
      intro vfs coherent _
      exact ⟨coherent, rfl⟩
  | cons child rest ih =>
      intro vfs coherent here
      obtain ⟨name, kind⟩ := child
      have childDerived := derived name kind List.mem_cons_self
      obtain ⟨after, extended, entry, present, same⟩ :=
        allocate_coherent m inverse vfs coherent parent parentEntry here name kind childDerived
      have restDerived : ∀ other otherKind, (other, otherKind) ∈ rest →
          m.deriveChildKind parentEntry.kind other = some otherKind := by
        intro other otherKind member
        exact derived other otherKind (List.mem_cons_of_mem _ member)
      obtain ⟨last, shown⟩ := ih restDerived _ after (extended parent parentEntry here)
      simp only [listChildren, present, List.map_cons, shown, same]
      exact ⟨last, trivial⟩

private theorem readdir_root_kinds (m : Mirrors) (vfs : TagVfs) (coherent : Coherent m vfs) :
    vfs.readdirRoot.map (fun shown => (shown.1, shown.2.kind)) = m.children .root := by
  rw [readdirRoot, coherent.tagsRoot, coherent.ctxRoot]
  rfl

theorem readdir_spec (m : Mirrors) (inverse : m.NamesInverse) (clear : m.Unambiguous)
    (vfs : TagVfs) (coherent : Coherent m vfs) (inode : Nat) :
    Coherent m (vfs.readdir m inode).2 ∧
      ∀ directory, vfs.entry inode = some directory →
        (vfs.readdir m inode).1.map (fun shown => (shown.1, shown.2.kind)) =
          m.children directory.kind := by
  rw [readdir]
  rcases here : vfs.entry inode with _ | ⟨number, kind, above⟩
  · exact ⟨coherent, by simp⟩
  · have known := coherent.known inode _ here
    have derived := children_derived m inverse clear kind known
    have listed := list_children_spec m inverse inode ⟨number, kind, above⟩ (m.children kind)
      derived vfs coherent here
    simp only [Option.some.injEq, forall_eq']
    cases kind with
    | root => exact ⟨coherent, readdir_root_kinds m vfs coherent⟩
    | tagsRoot => exact listed
    | ctxRoot => exact listed
    | tagDir currentTags => exact listed
    | ctxDir context subPath => exact listed
    | tagObject oid => exact ⟨coherent, rfl⟩
    | ctxObject context oid => exact ⟨coherent, rfl⟩

private theorem perform_coherent (m : Mirrors) (inverse : m.NamesInverse) (clear : m.Unambiguous)
    (vfs : TagVfs) (coherent : Coherent m vfs) (call : Call) :
    Coherent m (call.perform m vfs) := by
  cases call with
  | lookup parent name => exact (lookup_spec m inverse vfs coherent parent name).1
  | readdir inode => exact (readdir_spec m inverse clear vfs coherent inode).1

private theorem session_coherent (m : Mirrors) (inverse : m.NamesInverse) (clear : m.Unambiguous)
    (calls : List Call) : Coherent m (session m calls) := by
  have every : ∀ vfs, Coherent m vfs → Coherent m (calls.foldl (Call.perform m) vfs) := by
    induction calls with
    | nil =>
        intro vfs coherent
        exact coherent
    | cons call rest ih =>
        intro vfs coherent
        exact ih _ (perform_coherent m inverse clear vfs coherent call)
  exact every new (coherent_new m)

theorem resolve_kind (m : Mirrors) (inverse : m.NamesInverse) (path : List (List Char)) :
    ∀ vfs : TagVfs, Coherent m vfs → ∀ inode entry, vfs.entry inode = some entry →
      (resolve m path vfs inode).map VfsEntry.kind =
        path.foldlM m.deriveChildKind entry.kind := by
  induction path with
  | nil =>
      intro vfs _ inode entry here
      rw [resolve, here]
      rfl
  | cons name rest ih =>
      intro vfs coherent inode entry here
      obtain ⟨after, kinds, present⟩ := lookup_spec m inverse vfs coherent inode name
      rw [here, Option.bind_some] at kinds
      rw [List.foldlM_cons, ← kinds, resolve]
      rcases answer : vfs.lookup m inode name with ⟨_ | child, next⟩
      · rfl
      · rw [answer] at after present
        exact ih next after child.inode child (present child rfl)

end TagVfs

open TagVfs

/-- In every session on unambiguous mirrors, for every inode reached and every plain
name: a lookup finds an entry exactly if a listing shows one of that name, with the same
kind; no listing shows a name twice; and what a path leads to is what it leads to in a new
file system. -/
theorem lookup_agrees_with_readdir (m : Mirrors) (inverse : m.NamesInverse)
    (clear : m.Unambiguous) (calls : List Call) :
    (∀ inode directory, (session m calls).entry inode = some directory →
      (∀ name, m.Plain directory.kind name → ∀ kind,
        (∃ entry, ((session m calls).lookup m inode name).1 = some entry ∧ entry.kind = kind) ↔
          ∃ entry, (name, entry) ∈ ((session m calls).readdir m inode).1 ∧ entry.kind = kind) ∧
      (((session m calls).readdir m inode).1.map Prod.fst).Nodup) ∧
    ∀ path, (resolve m path (session m calls) inodeRoot).map VfsEntry.kind =
      (resolve m path TagVfs.new inodeRoot).map VfsEntry.kind := by
  have coherent := session_coherent m inverse clear calls
  constructor
  · intro inode directory here
    have known := coherent.known inode directory here
    have found := lookup_spec m inverse _ coherent inode
    have listed := (readdir_spec m inverse clear _ coherent inode).2 directory here
    constructor
    · intro name plain kind
      have looked : (∃ entry, ((session m calls).lookup m inode name).1 = some entry ∧
          entry.kind = kind) ↔ m.deriveChildKind directory.kind name = some kind := by
        have kinds := (found name).2.1
        rw [here, Option.bind_some] at kinds
        rw [← kinds, Option.map_eq_some_iff]
      have shown : (∃ entry, (name, entry) ∈ ((session m calls).readdir m inode).1 ∧
          entry.kind = kind) ↔ (name, kind) ∈ m.children directory.kind := by
        rw [← listed, List.mem_map]
        constructor
        · intro ⟨entry, member, same⟩
          exact ⟨(name, entry), member, by rw [same]⟩
        · intro ⟨⟨other, entry⟩, member, same⟩
          cases same
          exact ⟨entry, member, rfl⟩
      rw [looked, shown]
      constructor
      · intro derived
        exact derived_listed m inverse directory.kind name plain kind derived
      · intro member
        exact children_derived m inverse clear directory.kind known name kind member
    · have names : ((session m calls).readdir m inode).1.map Prod.fst =
          (m.children directory.kind).map Prod.fst := by
        rw [← listed, List.map_map]
        rfl
      rw [names]
      exact children_distinct m inverse clear directory.kind known
  · intro path
    rw [resolve_kind m inverse path _ coherent _ _ coherent.root,
      resolve_kind m inverse path _ (coherent_new m) _ _ (coherent_new m).root]

/-- The tag `a` with object 7, and the context `c` with a projection. -/
def sampleMirrors (projection : PathProjection) : Mirrors :=
  { tagIndex := TagIndex.new.addMember 1 (ObjectId.fromParts 0 7)
    ontology :=
      { OntologyState.new with
        tags := ((∅ : FMap TagId TagDefinition).insert 1 ⟨1, "a", .label, [], none⟩).insert 2
          ⟨2, "c", .grouping, [], none⟩
        names := ((∅ : FMap String TagId).insert "a" 1).insert "c" 2 }
    contextTrees := { projections := (∅ : FMap TagId PathProjection).insert 2 projection }
    narrow := by
      intro tag entry member
      rcases (TagIndex.mem_add_member _ _ _ _ _).mp member with ⟨-, rfl⟩ | old
      · decide
      · simp at old }

theorem sample_names_inverse (projection : PathProjection) :
    (sampleMirrors projection).NamesInverse := by
  intro name tag
  simp only [sampleMirrors, lookup_insert_eq, Finmap.lookup_empty]
  constructor
  · intro found
    split at found
    · next same =>
        cases found
        exact ⟨_, rfl, same.symm⟩
    · split at found
      · next same =>
          cases found
          exact ⟨_, rfl, same.symm⟩
      · cases found
  · intro ⟨definition, found, called⟩
    split at found
    · next same =>
        cases found
        rw [same, ← called]
        rfl
    · split at found
      · next same =>
          cases found
          rw [same, ← called]
          rfl
      · cases found

/-- One object below a directory. -/
def nestedPath : PathProjection :=
  { context := 2
    paths := [(ObjectId.fromParts 0 1, "x/y".toList)]
    distinct := by decide
    valid := by decide }

/-- An object whose path is a directory of another's. -/
def fileAndDirectory : PathProjection :=
  { context := 2
    paths := [(ObjectId.fromParts 0 1, "x".toList), (ObjectId.fromParts 0 2, "x/y".toList)]
    distinct := by decide
    valid := by decide }

theorem nested_unambiguous : (sampleMirrors nestedPath).Unambiguous where
  numbers := by
    intro name tag _ entry member
    rcases (TagIndex.mem_add_member _ _ _ _ _).mp member with ⟨-, rfl⟩ | old
    · decide
    · simp at old
  paths := by
    intro context projection found _
    rw [PathContextManager.get, sampleMirrors, lookup_insert_eq] at found
    split at found
    · cases found
      intro first firstMember second secondMember _
      rw [nestedPath, List.mem_singleton] at firstMember secondMember
      subst firstMember secondMember
      decide
    · cases found

theorem nested_lookup_agrees :
    (sampleMirrors nestedPath).NamesInverse ∧ (sampleMirrors nestedPath).Unambiguous ∧
      ∀ path, (resolve (sampleMirrors nestedPath) path
          (session (sampleMirrors nestedPath) [.lookup 2 "a".toList, .readdir 4]) inodeRoot).map
            VfsEntry.kind =
        (resolve (sampleMirrors nestedPath) path TagVfs.new inodeRoot).map VfsEntry.kind :=
  ⟨sample_names_inverse nestedPath, nested_unambiguous,
    (lookup_agrees_with_readdir (sampleMirrors nestedPath) (sample_names_inverse nestedPath)
      nested_unambiguous [.lookup 2 "a".toList, .readdir 4]).2⟩

/-- `07` is found as object 7 but only `7` is listed. A path that is a file and a directory
is listed twice, and is one or the other by what was called first. -/
theorem spellings_and_kinds_differ :
    ((sampleMirrors nestedPath).NamesInverse ∧
      (((session (sampleMirrors nestedPath) [.lookup 2 "a".toList]).lookup
        (sampleMirrors nestedPath) 4 "07".toList).1.isSome = true ∧
      ((session (sampleMirrors nestedPath) [.lookup 2 "a".toList]).readdir
        (sampleMirrors nestedPath) 4).1.map Prod.fst = ["7".toList])) ∧
    ((sampleMirrors fileAndDirectory).NamesInverse ∧
      (((session (sampleMirrors fileAndDirectory) [.lookup 3 "c".toList]).readdir
        (sampleMirrors fileAndDirectory) 4).1.map Prod.fst = ["x".toList, "x".toList] ∧
      (resolve (sampleMirrors fileAndDirectory) ["ctx".toList, "c".toList, "x".toList]
          (session (sampleMirrors fileAndDirectory) []) inodeRoot).map VfsEntry.kind ≠
        (resolve (sampleMirrors fileAndDirectory) ["ctx".toList, "c".toList, "x".toList]
          (session (sampleMirrors fileAndDirectory) [.lookup 3 "c".toList, .readdir 4])
            inodeRoot).map VfsEntry.kind)) := by
  refine ⟨⟨sample_names_inverse nestedPath, ?_⟩, sample_names_inverse fileAndDirectory, ?_⟩
  · decide +kernel
  · decide +kernel

end Mimisbrunnr.Fuse
