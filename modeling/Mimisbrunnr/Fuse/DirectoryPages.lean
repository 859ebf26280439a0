import Mimisbrunnr.Fuse.Mount

/-!
# Pages of a directory

The table of inodes only grows, so a directory that has been listed once is listed
the same from then on. Each page is a front of what the pages before it have left, and
an entry that was shown is found again under its name.
-/

namespace Mimisbrunnr.Fuse

set_option autoImplicit false

open Mimisbrunnr.Lib
open Mimisbrunnr.Lib.FiniteMap
open Mimisbrunnr.Lib.Paging
open Mimisbrunnr.Ontology
open Mimisbrunnr.Types
open Mimisbrunnr.Unix

namespace TagVfs

/-- Whatever is in the table before is in it after. -/
structure Grows (before after : TagVfs) : Prop where
  entries : Extends before after
  names : ∀ key child, before.lookupIndex.lookup key = some child →
    after.lookupIndex.lookup key = some child

theorem Grows.refl (vfs : TagVfs) : Grows vfs vfs :=
  ⟨Extends.refl vfs, fun _ _ found => found⟩

theorem Grows.trans {first second third : TagVfs} (early : Grows first second)
    (late : Grows second third) : Grows first third := by
  constructor
  · intro inode entry found
    exact late.entries inode entry (early.entries inode entry found)
  · intro key child found
    exact late.names key child (early.names key child found)

def Bounded (vfs : TagVfs) : Prop := ∀ inode entry, vfs.entry inode = some entry →
  inode < vfs.nextIno

def RootOnly (vfs : TagVfs) : Prop := ∀ inode entry, vfs.entry inode = some entry →
  entry.kind = .root → inode = inodeRoot

theorem allocate_grows (vfs : TagVfs) (bounded : Bounded vfs) (kind : VfsEntryKind)
    (parent : Nat) (name : List Char) :
    Grows vfs (vfs.allocateInode kind parent name).2 ∧
      Bounded (vfs.allocateInode kind parent name).2 ∧
      (vfs.allocateInode kind parent name).2.lookupIndex.lookup (parent, name) =
        some (vfs.allocateInode kind parent name).1 := by
  rw [allocateInode]
  split
  · next existing found => exact ⟨.refl vfs, bounded, found⟩
  · next absent =>
      refine ⟨⟨?_, ?_⟩, ?_, ?_⟩
      · intro inode entry found
        rw [TagVfs.entry, lookup_insert_eq, if_neg (Nat.ne_of_lt (bounded inode entry found))]
        exact found
      · intro key child found
        rw [lookup_insert_eq, if_neg]
        · exact found
        · intro same
          rw [same, absent] at found
          cases found
      · intro inode entry found
        rw [TagVfs.entry, lookup_insert_eq] at found
        split at found
        · next last => exact last ▸ Nat.lt_succ_self _
        · exact Nat.lt_succ_of_lt (bounded inode entry found)
      · rw [lookup_insert_eq, if_pos rfl]

theorem allocate_root_only (vfs : TagVfs) (only : RootOnly vfs) (kind : VfsEntryKind)
    (parent : Nat) (name : List Char) (below : kind ≠ .root) :
    RootOnly (vfs.allocateInode kind parent name).2 := by
  rw [allocateInode]
  split
  · exact only
  · intro inode entry found root
    rw [TagVfs.entry, lookup_insert_eq] at found
    split at found
    · cases found
      exact absurd root below
    · exact only inode entry found root

theorem derived_below (m : Mirrors) (kind child : VfsEntryKind) (name : List Char)
    (derived : m.deriveChildKind kind name = some child) : child ≠ .root := by
  intro root
  subst root
  cases kind with
  | root =>
      simp only [Mirrors.deriveChildKind] at derived
      split at derived
      · cases derived
      · split at derived
        · cases derived
        · cases derived
  | tagsRoot =>
      simp only [Mirrors.deriveChildKind, Mirrors.deriveChildUnderTagsRoot, bind,
        Option.bind_eq_some_iff] at derived
      obtain ⟨tag, -, members, -, last⟩ := derived
      split at last
      · cases last
      · cases last
  | tagDir tags =>
      simp only [Mirrors.deriveChildKind, Mirrors.deriveChildUnderTagDir, bind] at derived
      split at derived
      · split at derived
        · obtain ⟨members, -, last⟩ := Option.bind_eq_some_iff.mp derived
          split at last
          · cases last
          · cases last
        · cases derived
      · obtain ⟨raw, -, last⟩ := Option.bind_eq_some_iff.mp derived
        split at last
        · cases last
        · cases last
  | ctxRoot =>
      simp only [Mirrors.deriveChildKind, Mirrors.deriveChildUnderCtxRoot, bind,
        Option.bind_eq_some_iff] at derived
      obtain ⟨tag, -, last⟩ := derived
      split at last
      · cases last
      · cases last
  | ctxDir context subPath =>
      simp only [Mirrors.deriveChildKind, Mirrors.deriveChildUnderCtxDir, bind,
        Option.bind_eq_some_iff] at derived
      obtain ⟨projection, -, last⟩ := derived
      split at last
      · cases last
      · split at last
        · cases last
        · cases last
  | tagObject oid => cases derived
  | ctxObject context oid => cases derived

private theorem listed_below (m : Mirrors) (kind : VfsEntryKind) (name : List Char)
    (child : VfsEntryKind) (listed : (name, child) ∈ m.children kind) : child ≠ .root := by
  intro root
  subst root
  cases kind with
  | root =>
      simp [Mirrors.children] at listed
  | tagsRoot =>
      obtain ⟨tag, members, -, -, -, same⟩ := (mem_tags_root_children m name .root).mp listed
      cases same
  | tagDir tags =>
      rcases List.mem_append.mp listed with refined | object
      · obtain ⟨tag, members, -, -, -, -, same⟩ := (mem_refinements m tags name .root).mp refined
        cases same
      · obtain ⟨entry, -, -, same⟩ := (mem_matched m tags name .root).mp object
        cases same
  | ctxRoot =>
      obtain ⟨context, -, same⟩ := List.mem_map.mp listed
      cases same
  | ctxDir context subPath =>
      unfold Mirrors.children Mirrors.ctxDirChildren at listed
      dsimp only at listed
      split at listed
      · cases listed
      · rcases List.mem_append.mp listed with directory | file
        · obtain ⟨dir, -, same⟩ := List.mem_map.mp directory
          cases same
        · obtain ⟨found, -, same⟩ := List.mem_map.mp file
          cases same
  | tagObject oid => cases listed
  | ctxObject context oid => cases listed

/-- The table has the children of a directory under their names, with the entries shown. -/
def ListedIn (vfs : TagVfs) (parent : Nat) (children : List (List Char × VfsEntryKind))
    (listed : List (List Char × VfsEntry)) : Prop :=
  List.Forall₂ (fun child shown => shown.1 = child.1 ∧
    vfs.lookupIndex.lookup (parent, child.1) = some shown.2.inode ∧
      vfs.entry shown.2.inode = some shown.2) children listed

theorem listed_grows {before after : TagVfs} {parent : Nat}
    {children : List (List Char × VfsEntryKind)} {listed : List (List Char × VfsEntry)}
    (grows : Grows before after) (here : ListedIn before parent children listed) :
    ListedIn after parent children listed := by
  apply here.imp
  intro child shown parts
  obtain ⟨name, located, found⟩ := parts
  exact ⟨name, grows.names _ _ located, grows.entries _ _ found⟩

private theorem list_children_listed (m : Mirrors) (parent : Nat) (parentEntry : VfsEntry)
    (children : List (List Char × VfsEntryKind))
    (below : ∀ name kind, (name, kind) ∈ children → kind ≠ .root)
    (derived : ∀ name kind, (name, kind) ∈ children → TagStep parentEntry.kind name →
      m.deriveChildKind parentEntry.kind name = some kind) :
    ∀ vfs : TagVfs, Sound m vfs → RootOnly vfs → vfs.entry parent = some parentEntry →
      Grows vfs (listChildren parent children vfs).2 ∧
        RootOnly (listChildren parent children vfs).2 ∧
        ListedIn (listChildren parent children vfs).2 parent children
          (listChildren parent children vfs).1 := by
  induction children with
  | nil =>
      intro vfs sound only here
      exact ⟨.refl vfs, only, .nil⟩
  | cons child rest ih =>
      intro vfs sound only here
      obtain ⟨name, kind⟩ := child
      obtain ⟨after, extended, entry, present, -⟩ :=
        allocate_sound m vfs sound parent parentEntry here name kind
          (derived name kind List.mem_cons_self)
      obtain ⟨grown, -, located⟩ := allocate_grows vfs sound.fresh kind parent name
      have still := allocate_root_only vfs only kind parent name (below name kind List.mem_cons_self)
      obtain ⟨further, onlyLast, listed⟩ := ih
        (fun other otherKind member => below other otherKind (List.mem_cons_of_mem _ member))
        (fun other otherKind member => derived other otherKind (List.mem_cons_of_mem _ member))
        _ after still (extended parent parentEntry here)
      simp only [listChildren, present]
      refine ⟨grown.trans further, onlyLast, .cons ⟨rfl, ?_, ?_⟩ listed⟩
      · rw [after.numbered _ _ present]
        exact further.names _ _ located
      · rw [after.numbered _ _ present]
        exact further.entries _ _ present

theorem listed_again (vfs : TagVfs) (parent : Nat) (children : List (List Char × VfsEntryKind))
    (listed : List (List Char × VfsEntry)) (here : ListedIn vfs parent children listed) :
    listChildren parent children vfs = (listed, vfs) := by
  induction here with
  | nil => rfl
  | cons first further ih =>
      next child shown rest others =>
      obtain ⟨childName, kind⟩ := child
      obtain ⟨shownName, entry⟩ := shown
      obtain ⟨name, located, found⟩ := first
      dsimp only at name located found
      subst name
      have kept : vfs.allocateInode kind parent shownName = (entry.inode, vfs) := by
        rw [allocateInode, located]
      simp only [listChildren, kept, found, ih]

/-- What holds of the table of a mounted file system. -/
structure Mounted (m : Mirrors) (vfs : TagVfs) : Prop where
  sound : Sound m vfs
  only : RootOnly vfs
  started : Grows new vfs

private theorem mounted_new (m : Mirrors) : Mounted m new := by
  refine ⟨sound_new m, ?_, .refl new⟩
  intro inode entry found root
  rcases entry_new inode entry found with ⟨same, -⟩ | ⟨-, rfl⟩ | ⟨-, rfl⟩
  · exact same
  · cases root
  · cases root

private theorem mounted_lookup (m : Mirrors) (vfs : TagVfs) (mounted : Mounted m vfs) (parent : Nat)
    (name : List Char) :
    Mounted m (vfs.lookup m parent name).2 ∧ Grows vfs (vfs.lookup m parent name).2 := by
  have sound := (lookup_sound m vfs mounted.sound parent name).1
  suffices rest : Grows vfs (vfs.lookup m parent name).2 ∧ RootOnly (vfs.lookup m parent name).2 by
    exact ⟨⟨sound, rest.2, mounted.started.trans rest.1⟩, rest.1⟩
  rw [lookup]
  split
  · exact ⟨.refl vfs, mounted.only⟩
  · split
    · exact ⟨.refl vfs, mounted.only⟩
    · next parentEntry here =>
        split
        · exact ⟨.refl vfs, mounted.only⟩
        · next kind derived =>
            exact ⟨(allocate_grows vfs mounted.sound.fresh kind parent name).1,
              allocate_root_only vfs mounted.only kind parent name
                (derived_below m _ kind name derived)⟩

theorem readdir_root_eq (m : Mirrors) (vfs : TagVfs) (mounted : Mounted m vfs) :
    vfs.readdirRoot =
      [("tags".toList, ⟨inodeTagsRoot, .tagsRoot, some inodeRoot⟩),
        ("ctx".toList, ⟨inodeCtxRoot, .ctxRoot, some inodeRoot⟩)] := by
  rw [readdirRoot, mounted.started.entries inodeTagsRoot _ rfl,
    mounted.started.entries inodeCtxRoot _ rfl]
  rfl

private theorem listed_root (m : Mirrors) (vfs : TagVfs) (mounted : Mounted m vfs) :
    ListedIn vfs inodeRoot (m.children .root) vfs.readdirRoot := by
  rw [readdir_root_eq m vfs mounted]
  refine .cons ⟨rfl, ?_, ?_⟩ (.cons ⟨rfl, ?_, ?_⟩ .nil)
  · exact mounted.started.names _ _ rfl
  · exact mounted.started.entries _ _ rfl
  · exact mounted.started.names _ _ rfl
  · exact mounted.started.entries _ _ rfl

theorem mounted_readdir (m : Mirrors) (vfs : TagVfs) (mounted : Mounted m vfs) (inode : Nat) :
    Mounted m (vfs.readdir m inode).2 ∧ Grows vfs (vfs.readdir m inode).2 ∧
      ∀ directory, vfs.entry inode = some directory →
        ListedIn (vfs.readdir m inode).2 inode (m.children directory.kind)
          (vfs.readdir m inode).1 := by
  have sound := (readdir_sound m vfs mounted.sound inode).1
  suffices rest : Grows vfs (vfs.readdir m inode).2 ∧ RootOnly (vfs.readdir m inode).2 ∧
      ∀ directory, vfs.entry inode = some directory →
        ListedIn (vfs.readdir m inode).2 inode (m.children directory.kind)
          (vfs.readdir m inode).1 by
    exact ⟨⟨sound, rest.2.1, mounted.started.trans rest.1⟩, rest.1, rest.2.2⟩
  rw [readdir]
  cases here : vfs.entry inode with
  | none =>
      refine ⟨.refl vfs, mounted.only, ?_⟩
      intro directory known
      cases known
  | some directory =>
      obtain ⟨number, kind, above⟩ := directory
      have listed := list_children_listed m inode ⟨number, kind, above⟩ (m.children kind)
        (listed_below m kind) (listed_derived m kind) vfs mounted.sound mounted.only here
      simp only [Option.some.injEq, forall_eq']
      cases kind with
      | root =>
          have top := mounted.only inode _ here rfl
          subst top
          exact ⟨.refl vfs, mounted.only, listed_root m vfs mounted⟩
      | tagsRoot => exact listed
      | ctxRoot => exact listed
      | tagDir currentTags => exact listed
      | ctxDir context subPath => exact listed
      | tagObject oid => exact ⟨.refl vfs, mounted.only, .nil⟩
      | ctxObject context oid => exact ⟨.refl vfs, mounted.only, .nil⟩

private theorem readdir_again (m : Mirrors) (vfs later : TagVfs) (mounted : Mounted m vfs)
    (still : Mounted m later) (inode : Nat) (directory : VfsEntry)
    (here : vfs.entry inode = some directory) (grows : Grows (vfs.readdir m inode).2 later) :
    later.readdir m inode = ((vfs.readdir m inode).1, later) := by
  obtain ⟨-, grown, listed⟩ := mounted_readdir m vfs mounted inode
  have there := grows.entries inode directory (grown.entries inode directory here)
  have cached := listed_again later inode _ _ (listed_grows grows (listed directory here))
  obtain ⟨number, kind, above⟩ := directory
  unfold readdir at cached ⊢
  rw [here] at cached ⊢
  rw [there]
  dsimp only at cached ⊢
  cases kind with
  | root =>
      dsimp only
      rw [readdir_root_eq m vfs mounted, readdir_root_eq m later still]
  | tagsRoot => exact cached
  | ctxRoot => exact cached
  | tagDir currentTags => exact cached
  | ctxDir context subPath => exact cached
  | tagObject oid => rfl
  | ctxObject context oid => rfl

private theorem mounted_ctx_root (m : Mirrors) (vfs : TagVfs) (mounted : Mounted m vfs)
    (context : TagId) : Mounted m (vfs.ctxRootInode m context).2 := by
  unfold ctxRootInode
  split
  · exact mounted
  · split
    · exact mounted
    · next definition known =>
        have here := mounted.started.entries inodeCtxRoot _ rfl
        obtain ⟨sound, -, -⟩ := allocate_sound m vfs mounted.sound inodeCtxRoot _ here
          definition.name.toList (.ctxDir context []) nofun
        have grown := (allocate_grows vfs mounted.sound.fresh (.ctxDir context []) inodeCtxRoot
          definition.name.toList).1
        exact ⟨sound, allocate_root_only vfs mounted.only _ _ _ nofun,
          mounted.started.trans grown⟩

end TagVfs

namespace MimisbrunnrFs

open TagVfs

/-- The entries of a listing as a reply shows them, the first one at an index. -/
def direntsFrom : Nat → List (List Char × VfsEntry) → List DirEntry
  | _, [] => []
  | index, shown :: rest =>
      { ino := shown.2.inode
        offset := index + 1
        kind := (attrForKind shown.2.kind).kind
        name := Text.encode shown.1 } :: direntsFrom (index + 1) rest

private theorem length_dirents (listing : List (List Char × VfsEntry)) :
    ∀ index, (direntsFrom index listing).length = listing.length := by
  induction listing with
  | nil => exact fun _ => rfl
  | cons shown rest ih =>
      intro index
      rw [direntsFrom, List.length_cons, List.length_cons, ih]

private theorem names_dirents (listing : List (List Char × VfsEntry)) :
    ∀ index, (direntsFrom index listing).map DirEntry.name =
      listing.map fun shown => Text.encode shown.1 := by
  induction listing with
  | nil => exact fun _ => rfl
  | cons shown rest ih =>
      intro index
      rw [direntsFrom, List.map_cons, List.map_cons, ih]

private theorem drop_dirents (listing : List (List Char × VfsEntry)) :
    ∀ count index, (direntsFrom index listing).drop count =
      direntsFrom (index + count) (listing.drop count) := by
  induction listing with
  | nil =>
      intro count index
      rw [direntsFrom, List.drop_nil, List.drop_nil, direntsFrom]
  | cons shown rest ih =>
      intro count index
      cases count with
      | zero => rfl
      | succ count =>
          rw [direntsFrom, List.drop_succ_cons, List.drop_succ_cons, ih, Nat.add_right_comm]
          rfl

private theorem mem_dirents (listing : List (List Char × VfsEntry)) :
    ∀ index, ∀ dirent ∈ direntsFrom index listing, ∃ shown ∈ listing,
      dirent.ino = shown.2.inode ∧ dirent.kind = (attrForKind shown.2.kind).kind ∧
        dirent.name = Text.encode shown.1 := by
  induction listing with
  | nil => exact fun _ _ member => absurd member List.not_mem_nil
  | cons shown rest ih =>
      intro index dirent member
      rcases List.mem_cons.mp member with rfl | later
      · exact ⟨shown, List.mem_cons_self, rfl, rfl, rfl⟩
      · obtain ⟨other, listed, same⟩ := ih (index + 1) dirent later
        exact ⟨other, List.mem_cons_of_mem _ listed, same⟩

theorem last_offset (listing : List (List Char × VfsEntry)) :
    ∀ index, ∀ front : List DirEntry, front <+: direntsFrom index listing →
      ∀ last, front.getLast? = some last → last.offset = index + front.length := by
  induction listing with
  | nil =>
      intro index front within last found
      rw [List.prefix_nil.mp within] at found
      cases found
  | cons shown rest ih =>
      intro index front within last found
      cases front with
      | nil => cases found
      | cons first others =>
          obtain ⟨same, further⟩ := List.cons_prefix_cons.mp within
          cases others with
          | nil =>
              cases found
              rw [same]
              rfl
          | cons second more =>
              rw [List.getLast?_cons_cons] at found
              rw [ih (index + 1) _ further last found]
              simp only [List.length_cons]
              omega

theorem next_offset (listing : List (List Char × VfsEntry)) (index : Nat) (page : List DirEntry)
    (front : page <+: direntsFrom index listing) :
    nextOffset index page = index + page.length := by
  unfold nextOffset
  cases found : page.getLast? with
  | some last => exact last_offset listing index page front last found
  | none =>
      rw [List.getLast?_eq_none_iff.mp found]
      rfl

variable (direntSize : List UInt8 → Nat)

/-- A reply is a front of the entries, and not empty where the first one fits. -/
theorem fill_reply_spec (vfs : TagVfs) (capacity : Nat) (listing : List (List Char × VfsEntry))
    (present : ∀ shown ∈ listing, vfs.entry shown.2.inode = some shown.2) :
    ∀ index used, fillReply direntSize vfs capacity index used listing <+:
        direntsFrom index listing ∧
      ∀ first rest, listing = first :: rest →
        used + direntSize (Text.encode first.1) ≤ capacity →
          fillReply direntSize vfs capacity index used listing ≠ [] := by
  induction listing with
  | nil =>
      intro index used
      exact ⟨List.nil_prefix, nofun⟩
  | cons shown rest ih =>
      intro index used
      have attr : vfs.getattr shown.2.inode = some (attrForKind shown.2.kind) := by
        rw [TagVfs.getattr, present shown List.mem_cons_self]
        rfl
      have rest_present : ∀ other ∈ rest, vfs.entry other.2.inode = some other.2 := by
        intro other member
        exact present other (List.mem_cons_of_mem _ member)
      obtain ⟨name, entry⟩ := shown
      unfold fillReply direntsFrom
      dsimp only at attr
      simp only [attr]
      split
      · next full =>
          refine ⟨List.nil_prefix, ?_⟩
          intro first others same fits
          cases same
          dsimp only at fits
          omega
      · refine ⟨?_, fun _ _ _ _ => List.cons_ne_nil _ _⟩
        rw [List.cons_prefix_cons]
        exact ⟨rfl, (ih rest_present (index + 1) _).1⟩

/-- A later state of a file system: the table may have grown. -/
structure After (m : Mirrors) (fs later : MimisbrunnrFs) : Prop where
  mounted : Mounted m later.vfs
  grows : Grows fs.vfs later.vfs
  content : later.content = fs.content
  root : later.rootInode = fs.rootInode

theorem After.refl {m : Mirrors} {fs : MimisbrunnrFs} (mounted : Mounted m fs.vfs) :
    After m fs fs := ⟨mounted, .refl _, rfl, rfl⟩

theorem After.trans {m : Mirrors} {first second third : MimisbrunnrFs}
    (early : After m first second) (late : After m second third) : After m first third :=
  ⟨late.mounted, early.grows.trans late.grows, late.content.trans early.content,
    late.root.trans early.root⟩

theorem After.translate {m : Mirrors} {fs later : MimisbrunnrFs} (after : After m fs later)
    (ino : Nat) : later.translate ino = fs.translate ino := by
  rw [MimisbrunnrFs.translate, MimisbrunnrFs.translate, after.root]

theorem lookup_after (m : Mirrors) (fs : MimisbrunnrFs) (mounted : Mounted m fs.vfs)
    (parent : Nat) (name : List UInt8) : After m fs (fs.lookup m parent name).2 := by
  unfold lookup
  split
  · exact .refl mounted
  · next chars _ =>
      obtain ⟨still, grows⟩ := mounted_lookup m fs.vfs mounted (fs.translate parent) chars
      split
      · next vfs answer =>
          rw [answer] at still grows
          exact ⟨still, grows, rfl, rfl⟩
      · next entry vfs answer =>
          rw [answer] at still grows
          dsimp only
          split
          · exact ⟨still, grows, rfl, rfl⟩
          · exact ⟨still, grows, rfl, rfl⟩

theorem readdir_after (m : Mirrors) (fs : MimisbrunnrFs) (mounted : Mounted m fs.vfs)
    (ino offset capacity : Nat) : After m fs (readdir direntSize m fs ino offset capacity).2 := by
  obtain ⟨still, grows, -⟩ := mounted_readdir m fs.vfs mounted (fs.translate ino)
  exact ⟨still, grows, rfl, rfl⟩

theorem perform_after (m : Mirrors) (fs : MimisbrunnrFs) (mounted : Mounted m fs.vfs)
    (call : KernelCall) : After m fs (perform direntSize m fs call) := by
  cases call with
  | lookup parent name => exact lookup_after m fs mounted parent name
  | readdir ino offset capacity => exact readdir_after direntSize m fs mounted ino offset capacity
  | getattr ino => exact .refl mounted
  | read ino offset size => exact .refl mounted
  | write call => exact .refl mounted

theorem perform_all_after (m : Mirrors) (fs : MimisbrunnrFs) (mounted : Mounted m fs.vfs)
    (calls : List KernelCall) : After m fs (performAll direntSize m fs calls) :=
  Runs.run_invariant (perform direntSize m) (After m fs) fs (.refl mounted)
    (fun state call after => after.trans (perform_after direntSize m state after.mounted call)) calls

theorem new_with_root_mounted (m : Mirrors) (content : ObjectId → Option (List UInt8))
    (root : MountRoot) : Mounted m (newWithRoot m TagVfs.new content root).vfs := by
  cases root with
  | full => exact mounted_new m
  | tagsOnly => exact mounted_new m
  | ctxOnly => exact mounted_new m
  | singleContext context => exact mounted_ctx_root m TagVfs.new (mounted_new m) context

private theorem read_pages_taken (m : Mirrors) (ino : Nat) (directory : VfsEntry)
    (listing : List (List Char × VfsEntry)) (steps : List (Nat × List KernelCall)) :
    ∀ (offset : Nat) (fs : MimisbrunnrFs), Mounted m fs.vfs →
      fs.vfs.entry (fs.translate ino) = some directory →
      (fs.vfs.readdir m (fs.translate ino)).1 = listing →
      (∀ shown ∈ listing, ∀ step ∈ steps, direntSize (Text.encode shown.1) ≤ step.1) →
      Pages (direntsFrom offset (listing.drop offset))
          (readPages direntSize m ino steps offset fs).1 ∧
        After m fs (readPages direntSize m ino steps offset fs).2 ∧
        (steps ≠ [] → ListedIn (readPages direntSize m ino steps offset fs).2.vfs
          (fs.translate ino) (m.children directory.kind) listing) := by
  induction steps with
  | nil =>
      intro offset fs mounted here same fits
      exact ⟨.stop _, .refl mounted, fun some_step => absurd rfl some_step⟩
  | cons step rest ih =>
      intro offset fs mounted here same fits
      obtain ⟨capacity, between⟩ := step
      obtain ⟨still, -, listed⟩ := mounted_readdir m fs.vfs mounted (fs.translate ino)
      have shown_here := listed directory here
      have first := readdir_after direntSize m fs mounted ino offset capacity
      have between_after := perform_all_after direntSize m _ first.mounted between
      have next_after := first.trans between_after
      rw [same] at shown_here
      have present : ∀ shown ∈ listing.drop offset,
          (fs.vfs.readdir m (fs.translate ino)).2.entry shown.2.inode = some shown.2 := by
        intro shown member
        obtain ⟨index, inside, rfl⟩ := List.getElem_of_mem (List.mem_of_mem_drop member)
        have parts := List.forall₂_iff_get.mp shown_here
        exact (parts.2 index (parts.1 ▸ inside) inside).2.2
      obtain ⟨front, some_fit⟩ := fill_reply_spec direntSize _ capacity _ present offset 0
      have page : (readdir direntSize m fs ino offset capacity).1 =
          fillReply direntSize (fs.vfs.readdir m (fs.translate ino)).2 capacity offset 0
            (listing.drop offset) := by
        rw [readdir, same]
      rw [← page] at front some_fit
      have next : nextOffset offset (readdir direntSize m fs ino offset capacity).1 =
          offset + (readdir direntSize m fs ino offset capacity).1.length :=
        next_offset _ offset _ front
      unfold readPages
      dsimp only
      rw [next]
      have again := readdir_again m fs.vfs _ mounted next_after.mounted (fs.translate ino)
        directory here between_after.grows
      obtain ⟨pages, after, last⟩ := ih
        (offset + (readdir direntSize m fs ino offset capacity).1.length)
        (performAll direntSize m (readdir direntSize m fs ino offset capacity).2 between)
        next_after.mounted
        (by
          rw [next_after.translate]
          exact next_after.grows.entries _ _ here)
        (by rw [next_after.translate, again, same])
        (fun shown member other listed => fits shown member other (List.mem_cons_of_mem _ listed))
      refine ⟨?_, next_after.trans after, fun _ => ?_⟩
      · obtain ⟨left, split⟩ := front
        have remaining : left = direntsFrom
            (offset + (readdir direntSize m fs ino offset capacity).1.length)
            (listing.drop (offset + (readdir direntSize m fs ino offset capacity).1.length)) := by
          rw [← List.drop_drop, ← drop_dirents, ← split, List.drop_left]
        rw [← split, remaining]
        refine .page _ _ _ ?_ pages
        intro nothing
        rw [← remaining]
        cases shape : listing.drop offset with
        | nil =>
            rw [shape, nothing] at split
            exact split
        | cons shown others =>
            have inside : shown ∈ listing :=
              List.mem_of_mem_drop (shape ▸ List.mem_cons_self)
            have room := fits shown inside (capacity, between) List.mem_cons_self
            exact absurd nothing (some_fit shown others shape (by omega))
      · exact listed_grows (between_after.grows.trans after.grows) shown_here

/-- A name that is in the table is found with the inode and the kind of its entry. -/
theorem lookup_cached (m : Mirrors) (fs : MimisbrunnrFs) (parent : Nat) (name : List Char)
    (entry : VfsEntry)
    (located : fs.vfs.lookupIndex.lookup (fs.translate parent, name) = some entry.inode)
    (found : fs.vfs.entry entry.inode = some entry) :
    ∃ attr, (fs.lookup m parent (Text.encode name)).1 = .ok attr ∧ attr.ino = entry.inode ∧
      attr.kind = (attrForKind entry.kind).kind := by
  have direct : fs.vfs.lookup m (fs.translate parent) name = (some entry, fs.vfs) := by
    rw [TagVfs.lookup, located]
    dsimp only
    rw [found]
  have attr : fs.vfs.getattr entry.inode = some (attrForKind entry.kind) := by
    rw [TagVfs.getattr, found]
    rfl
  unfold lookup
  rw [Text.decode_encode]
  dsimp only
  rw [direct]
  dsimp only
  rw [attr]
  exact ⟨_, rfl, rfl, rfl⟩

private theorem length_pages (m : Mirrors) (ino : Nat) (steps : List (Nat × List KernelCall)) :
    ∀ (offset : Nat) (fs : MimisbrunnrFs),
      (readPages direntSize m ino steps offset fs).1.length = steps.length := by
  induction steps with
  | nil => exact fun _ _ => rfl
  | cons step rest ih =>
      intro offset fs
      rw [readPages, List.length_cons, List.length_cons, ih]

private theorem names_listed {vfs : TagVfs} {parent : Nat}
    {children : List (List Char × VfsEntryKind)}
    {listed : List (List Char × VfsEntry)} (here : ListedIn vfs parent children listed) :
    (listed.map fun shown => Text.encode shown.1) =
      children.map fun child => Text.encode child.1 := by
  induction here with
  | nil => rfl
  | cons first further ih => rw [List.map_cons, List.map_cons, ih, first.1]

/-- The pages of a directory of a mounted file system show its children, each once and in
order, and all of them when a page is empty or there are as many pages as children. What was
shown is found under its name, with its number and its kind, whatever is called before, between
the pages and after them. -/
theorem directory_pages (m : Mirrors) (content : ObjectId → Option (List UInt8))
    (root : MountRoot) (before : List KernelCall) (ino : Nat) (directory : VfsEntry)
    (steps : List (Nat × List KernelCall)) (fs : MimisbrunnrFs)
    (session : fs = performAll direntSize m (newWithRoot m TagVfs.new content root) before)
    (known : fs.vfs.entry (fs.translate ino) = some directory)
    (fits : ∀ child ∈ m.children directory.kind, ∀ step ∈ steps,
      direntSize (Text.encode child.1) ≤ step.1) :
    let read := readPages direntSize m ino steps 0 fs
    let names := (m.children directory.kind).map fun child => Text.encode child.1
    read.1.flatten.map DirEntry.name <+: names ∧
      (names.length ≤ steps.length ∨ [] ∈ read.1 → read.1.flatten.map DirEntry.name = names) ∧
      ∀ shown ∈ read.1.flatten, ∀ later, ∃ attr,
        ((performAll direntSize m read.2 later).lookup m ino shown.name).1 = .ok attr ∧
          attr.ino = shown.ino ∧ attr.kind = shown.kind := by
  intro read names
  have mounted : Mounted m fs.vfs := by
    rw [session]
    exact (perform_all_after direntSize m _ (new_with_root_mounted m content root) before).mounted
  have listed := (mounted_readdir m fs.vfs mounted (fs.translate ino)).2.2 directory known
  have shown_names : ((fs.vfs.readdir m (fs.translate ino)).1.map
      fun shown => Text.encode shown.1) = names := names_listed listed
  obtain ⟨pages, after, last⟩ := read_pages_taken direntSize m ino directory
    (fs.vfs.readdir m (fs.translate ino)).1 steps 0 fs mounted known rfl
    (by
      intro shown member step given
      obtain ⟨index, inside, rfl⟩ := List.getElem_of_mem member
      have parts := List.forall₂_iff_get.mp listed
      have name := (parts.2 index (parts.1 ▸ inside) inside).1
      have child : (m.children directory.kind).get ⟨index, parts.1 ▸ inside⟩ ∈
          m.children directory.kind := List.get_mem _ _
      have room := fits _ child step given
      rw [← name] at room
      exact room)
  rw [List.drop_zero] at pages
  have front := (pages_start pages).map DirEntry.name
  rw [names_dirents, shown_names] at front
  refine ⟨front, ?_, ?_⟩
  · have count : (direntsFrom 0 (fs.vfs.readdir m (fs.translate ino)).1).length =
        names.length := by
      have lengths := congrArg List.length shown_names
      rw [List.length_map] at lengths
      rw [length_dirents]
      exact lengths
    intro complete
    have whole : read.1.flatten = direntsFrom 0 (fs.vfs.readdir m (fs.translate ino)).1 := by
      rcases complete with enough | ended
      · apply pages_enough pages
        rw [count, length_pages]
        exact enough
      · exact pages_ended pages ended
    rw [whole, names_dirents, shown_names]
  · intro shown member later
    have some_step : steps ≠ [] := by
      rintro rfl
      exact absurd member List.not_mem_nil
    obtain ⟨entry, inside, number, kind, name⟩ := mem_dirents _ 0 shown
      ((pages_start pages).subset member)
    have later_after := perform_all_after direntSize m read.2 after.mounted later
    have cached := listed_grows later_after.grows (last some_step)
    obtain ⟨index, within, rfl⟩ := List.getElem_of_mem inside
    have parts := List.forall₂_iff_get.mp cached
    obtain ⟨same, located, found⟩ := parts.2 index (parts.1 ▸ within) within
    rw [name, number, kind]
    apply lookup_cached
    · rw [(after.trans later_after).translate]
      rw [← same] at located
      exact located
    · exact found

def sampleDirentSize (name : List UInt8) : Nat := (24 + name.length + 7) / 8 * 8

/-- The tags are the root of the mount. They are read in buffers with room for one entry, and
one of them is looked up after the first page. -/
theorem directory_pages_tags :
    let fs := newWithRoot twoTags TagVfs.new (fun _ => none) .tagsOnly
    ((readPages sampleDirentSize twoTags inodeRoot
        [(40, [.lookup inodeRoot (Text.encode ['a'])]), (40, []), (40, [])] 0 fs).1.flatten.map
          DirEntry.name) =
      (twoTags.children .tagsRoot).map fun child => Text.encode child.1 := by
  intro fs
  have pages := directory_pages sampleDirentSize twoTags (fun _ => none) .tagsOnly [] inodeRoot
    ⟨inodeTagsRoot, .tagsRoot, some inodeRoot⟩
    [(40, [.lookup inodeRoot (Text.encode ['a'])]), (40, []), (40, [])] fs rfl (by decide +kernel)
    (by decide +kernel)
  exact pages.2.1 (Or.inl (by decide +kernel))

end MimisbrunnrFs

end Mimisbrunnr.Fuse
