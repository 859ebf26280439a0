import Mathlib.Data.Finset.Basic
import Mathlib.Data.List.Lex
import Mathlib.Data.Prod.Lex
import Mathlib.Order.Lex
import Mimisbrunnr.Index.Tag
import Mimisbrunnr.Lib.SortedEntries
import Mimisbrunnr.Lib.Text
import Mimisbrunnr.Ontology.State
import Mimisbrunnr.Unix.Projection

/-!
# The tag and path file system

`TagVfs` is a directory tree derived from the indices. Below `/tags` a path names
a set of tags, and the objects that have all of them are its files; below `/ctx`
each context shows its path projection. `lookup` derives a child from a name,
`readdir` enumerates the children, and both share a table of inodes in which the
first kind found for a name stays.

The engine's mirrors do not change while the file system is in use, so they are
a record of their own; what a call can change is the inode table. Names and paths
are lists of characters.
-/

namespace Mimisbrunnr.Index.TagIndex

set_option autoImplicit false

open Mimisbrunnr.Types

def intersectWith (index : TagIndex) (acc : Finset Nat) : List TagId → Finset Nat
  | [] => acc
  | tag :: rest =>
      match index.querySimple tag with
      | some members => index.intersectWith (acc ∩ members) rest
      | none => ∅

def intersect (index : TagIndex) : List TagId → Finset Nat
  | [] => ∅
  | tag :: rest =>
      match index.querySimple tag with
      | some members => index.intersectWith members rest
      | none => ∅

end Mimisbrunnr.Index.TagIndex

namespace Mimisbrunnr.Fuse

set_option autoImplicit false

open Mimisbrunnr.Index
open Mimisbrunnr.Lib
open Mimisbrunnr.Lib.FiniteMap
open Mimisbrunnr.Ontology
open Mimisbrunnr.Types
open Mimisbrunnr.Unix

inductive VfsEntryKind where
  | root
  | tagsRoot
  | ctxRoot
  | tagDir (currentTags : Finset TagId)
  | tagObject (oid : ObjectId)
  | ctxDir (context : TagId) (subPath : List Char)
  | ctxObject (context : TagId) (oid : ObjectId)
deriving DecidableEq

structure VfsEntry where
  inode : Nat
  kind : VfsEntryKind
  parent : Option Nat
deriving DecidableEq

def inodeRoot : Nat := 1

def inodeTagsRoot : Nat := 2

def inodeCtxRoot : Nat := 3

def inodeFirstDynamic : Nat := 4

/-- What the file system reads of the engine. Bitmap entries have 32 bits. -/
structure Mirrors where
  tagIndex : TagIndex
  ontology : OntologyState
  contextTrees : PathContextManager
  narrow : ∀ tag, ∀ entry ∈ tagIndex.membersOf tag, entry < 2 ^ 32

def low32Of (oid : ObjectId) : Nat := oid.localSeq % 2 ^ 32

def candidatePath (subPath name : List Char) : List Char :=
  if subPath = [] then name else subPath ++ '/' :: name

def pathStem (subPath : List Char) : List Char :=
  if subPath = [] then [] else subPath ++ ['/']

namespace Mirrors

variable (m : Mirrors)

def intersect (tags : Finset TagId) : Finset Nat :=
  m.tagIndex.intersect (SortedSet.ofFinset tags)

def deriveChildUnderTagsRoot (name : List Char) : Option VfsEntryKind := do
  let tag ← m.ontology.names.lookup (String.ofList name)
  let members ← m.tagIndex.querySimple tag
  if members = ∅ then none else some (.tagDir {tag})

def deriveChildUnderTagDir (currentTags : Finset TagId) (name : List Char) :
    Option VfsEntryKind :=
  match m.ontology.names.lookup (String.ofList name) with
  | some tag =>
      if tag ∉ currentTags then do
        let members ← m.tagIndex.querySimple tag
        if m.intersect currentTags ∩ members ≠ ∅ then some (.tagDir (insert tag currentTags))
        else none
      else none
  | none => do
      let raw ← Text.parseUnsigned 10 (2 ^ 64) name
      let oid := ObjectId.fromU64 (UInt64.ofNat raw)
      if low32Of oid ∉ m.intersect currentTags then none else some (.tagObject oid)

def deriveChildUnderCtxRoot (name : List Char) : Option VfsEntryKind := do
  let tag ← m.ontology.names.lookup (String.ofList name)
  if tag ∉ m.contextTrees.projections then none else some (.ctxDir tag [])

def deriveChildUnderCtxDir (context : TagId) (subPath name : List Char) :
    Option VfsEntryKind := do
  let projection ← m.contextTrees.get context
  let candidate := candidatePath subPath name
  match projection.reverseLookup candidate with
  | some oid => some (.ctxObject context oid)
  | none =>
      if projection.paths.any fun entry => (candidate ++ ['/']).isPrefixOf entry.2 then
        some (.ctxDir context candidate)
      else none

def deriveChildKind (parentKind : VfsEntryKind) (name : List Char) : Option VfsEntryKind :=
  match parentKind with
  | .root =>
      if name = "tags".toList then some .tagsRoot
      else if name = "ctx".toList then some .ctxRoot
      else none
  | .tagsRoot => m.deriveChildUnderTagsRoot name
  | .tagDir currentTags => m.deriveChildUnderTagDir currentTags name
  | .ctxRoot => m.deriveChildUnderCtxRoot name
  | .ctxDir context subPath => m.deriveChildUnderCtxDir context subPath name
  | .tagObject _ => none
  | .ctxObject _ _ => none

def tagsRootChildren : List (List Char × VfsEntryKind) :=
  (toSorted m.ontology.names).filterMap fun (name, tag) => do
    let members ← m.tagIndex.querySimple tag
    if members = ∅ then none else some (name.toList, .tagDir {tag})

/-- The tags whose members meet the current match. -/
def refinements (currentTags : Finset TagId) : List (List Char × VfsEntryKind) :=
  (toSorted m.ontology.names).filterMap fun (name, tag) =>
    if tag ∈ currentTags then none
    else do
      let members ← m.tagIndex.querySimple tag
      if m.intersect currentTags ∩ members = ∅ then none
      else some (name.toList, .tagDir (insert tag currentTags))

/-- The matched objects, named by their number on node 0. -/
def matched (currentTags : Finset TagId) : List (List Char × VfsEntryKind) :=
  (SortedSet.ofFinset (m.intersect currentTags)).map fun entry =>
    let oid := ObjectId.fromParts 0 entry
    (Nat.toDigits 10 oid.toU64.toNat, .tagObject oid)

def tagDirChildren (currentTags : Finset TagId) : List (List Char × VfsEntryKind) :=
  m.refinements currentTags ++ m.matched currentTags

def ctxRootChildren : List (List Char × VfsEntryKind) :=
  let names := (SortedSet.ofFinset m.contextTrees.projections.keys).filterMap fun tag =>
    (m.ontology.tags.lookup tag).map fun definition => (definition.name, tag)
  (names.insertionSort fun a b => a.1 ≤ b.1).map fun (name, tag) =>
    (name.toList, .ctxDir tag [])

end Mirrors

/-- What is left of a path below the directory, if anything is. -/
def tailBelow (stem path : List Char) : Option (List Char) :=
  if stem ≠ [] ∧ ¬ stem.isPrefixOf path then none
  else
    let tail := path.drop stem.length
    if tail = [] then none else some tail

/-- A tail with a separator shows the directory before the first one. -/
def childDir (tail : List Char) : Option (List Char) :=
  if '/' ∈ tail then
    let dir := tail.takeWhile (· ≠ '/')
    if dir = [] then none else some dir
  else none

def childFile (tail : List Char) : Option (List Char) := if '/' ∈ tail then none else some tail

def dirNames (projection : PathProjection) (stem : List Char) : List (List Char) :=
  SortedSet.ofList (projection.paths.filterMap fun entry =>
    (tailBelow stem entry.2).bind childDir)

def fileRank (file : List Char × ObjectId) : List Char ×ₗ Nat :=
  toLex (file.1, file.2.raw.toNat)

private theorem file_rank_injective : Function.Injective fileRank := by
  intro left right same
  obtain ⟨name, ⟨raw⟩⟩ := left
  obtain ⟨name', ⟨raw'⟩⟩ := right
  have parts : name = name' ∧ raw.toNat = raw'.toNat := by simpa [fileRank] using same
  rw [parts.1, UInt64.toNat_inj.mp parts.2]

@[reducible] def fileOrder : LinearOrder (List Char × ObjectId) :=
  orderBy fileRank file_rank_injective

def fileNames (projection : PathProjection) (stem : List Char) : List (List Char × ObjectId) :=
  @SortedSet.ofList _ fileOrder (projection.paths.filterMap fun entry =>
    ((tailBelow stem entry.2).bind childFile).map fun name => (name, entry.1))

namespace Mirrors

variable (m : Mirrors)

def ctxDirChildren (context : TagId) (subPath : List Char) : List (List Char × VfsEntryKind) :=
  match m.contextTrees.get context with
  | none => []
  | some projection =>
      (dirNames projection (pathStem subPath)).map
        (fun name => (name, .ctxDir context (candidatePath subPath name))) ++
      (fileNames projection (pathStem subPath)).map
        fun file => (file.1, .ctxObject context file.2)

end Mirrors

structure TagVfs where
  entries : FMap Nat VfsEntry
  lookupIndex : FMap (Nat × List Char) Nat
  nextIno : Nat

namespace TagVfs

def new : TagVfs :=
  { entries :=
      ((∅ : FMap Nat VfsEntry).insert inodeRoot ⟨inodeRoot, .root, none⟩
        |>.insert inodeTagsRoot ⟨inodeTagsRoot, .tagsRoot, some inodeRoot⟩
        |>.insert inodeCtxRoot ⟨inodeCtxRoot, .ctxRoot, some inodeRoot⟩)
    lookupIndex :=
      ((∅ : FMap (Nat × List Char) Nat).insert (inodeRoot, "tags".toList) inodeTagsRoot
        |>.insert (inodeRoot, "ctx".toList) inodeCtxRoot)
    nextIno := inodeFirstDynamic }

def entry (vfs : TagVfs) (inode : Nat) : Option VfsEntry := vfs.entries.lookup inode

/-- A name that has an inode keeps it and its kind. -/
def allocateInode (vfs : TagVfs) (kind : VfsEntryKind) (parent : Nat) (name : List Char) :
    Nat × TagVfs :=
  match vfs.lookupIndex.lookup (parent, name) with
  | some existing => (existing, vfs)
  | none =>
      (vfs.nextIno,
        { entries := vfs.entries.insert vfs.nextIno ⟨vfs.nextIno, kind, some parent⟩
          lookupIndex := vfs.lookupIndex.insert (parent, name) vfs.nextIno
          nextIno := vfs.nextIno + 1 })

def lookup (vfs : TagVfs) (m : Mirrors) (parent : Nat) (name : List Char) :
    Option VfsEntry × TagVfs :=
  match vfs.lookupIndex.lookup (parent, name) with
  | some child => (vfs.entry child, vfs)
  | none =>
      match vfs.entry parent with
      | none => (none, vfs)
      | some parentEntry =>
          match m.deriveChildKind parentEntry.kind name with
          | none => (none, vfs)
          | some childKind =>
              let (inode, after) := vfs.allocateInode childKind parent name
              (after.entry inode, after)

/-- The loop over the children: an inode for each, and its entry. -/
def listChildren (parent : Nat) : List (List Char × VfsEntryKind) → TagVfs →
    List (List Char × VfsEntry) × TagVfs
  | [], vfs => ([], vfs)
  | (name, kind) :: rest, vfs =>
      let (inode, after) := vfs.allocateInode kind parent name
      let (listed, last) := listChildren parent rest after
      match after.entry inode with
      | some entry => ((name, entry) :: listed, last)
      | none => (listed, last)

def readdirRoot (vfs : TagVfs) : List (List Char × VfsEntry) :=
  ((vfs.entry inodeTagsRoot).map fun entry => ("tags".toList, entry)).toList ++
  ((vfs.entry inodeCtxRoot).map fun entry => ("ctx".toList, entry)).toList

def readdir (vfs : TagVfs) (m : Mirrors) (inode : Nat) :
    List (List Char × VfsEntry) × TagVfs :=
  match vfs.entry inode with
  | none => ([], vfs)
  | some directory =>
      match directory.kind with
      | .root => (vfs.readdirRoot, vfs)
      | .tagsRoot => listChildren inode m.tagsRootChildren vfs
      | .ctxRoot => listChildren inode m.ctxRootChildren vfs
      | .tagDir currentTags => listChildren inode (m.tagDirChildren currentTags) vfs
      | .ctxDir context subPath => listChildren inode (m.ctxDirChildren context subPath) vfs
      | .tagObject _ => ([], vfs)
      | .ctxObject _ _ => ([], vfs)

end TagVfs

inductive Call where
  | lookup (parent : Nat) (name : List Char)
  | readdir (inode : Nat)
deriving DecidableEq, Repr

def Call.perform (m : Mirrors) (vfs : TagVfs) : Call → TagVfs
  | .lookup parent name => (vfs.lookup m parent name).2
  | .readdir inode => (vfs.readdir m inode).2

def session (m : Mirrors) (calls : List Call) : TagVfs := calls.foldl (Call.perform m) TagVfs.new

/-- Looking up the names of a path one after the other. -/
def TagVfs.resolve (m : Mirrors) : List (List Char) → TagVfs → Nat → Option VfsEntry
  | [], vfs, inode => vfs.entry inode
  | name :: rest, vfs, inode =>
      match vfs.lookup m inode name with
      | (none, _) => none
      | (some entry, after) => TagVfs.resolve m rest after entry.inode

end Mimisbrunnr.Fuse
