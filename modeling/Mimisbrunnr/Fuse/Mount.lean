import Mimisbrunnr.Fuse.TagPaths
import Mimisbrunnr.Lib.Paging

/-!
# The mounted file system

The adapter answers the kernel from a `TagVfs` and a provider of contents. It may
show a part of the tree as its root. The kernel reads a directory into buffers of
its own sizes, and goes on behind the last entry that it got; it reads a file in
pieces. Whatever it calls in between, the pages of a directory are its entries, each
once, and the pieces of a file are its bytes.
-/

namespace Mimisbrunnr.Fuse

set_option autoImplicit false

open Mimisbrunnr.Lib
open Mimisbrunnr.Lib.FiniteMap
open Mimisbrunnr.Ontology
open Mimisbrunnr.Types
open Mimisbrunnr.Unix

inductive VfsAttrKind where
  | directory
  | regularFile
deriving DecidableEq, Repr

structure VfsAttr where
  kind : VfsAttrKind
  size : Nat
  nlink : Nat
deriving DecidableEq, Repr

def VfsAttr.directory : VfsAttr :=
  { kind := .directory
    size := 0
    nlink := 2 }

def VfsAttr.regularFile (size : Nat) : VfsAttr :=
  { kind := .regularFile
    size := size
    nlink := 1 }

/-- The size of a file is not known here. -/
def attrForKind : VfsEntryKind → VfsAttr
  | .tagObject _ => .regularFile 0
  | .ctxObject _ _ => .regularFile 0
  | _ => .directory

namespace TagVfs

def getattr (vfs : TagVfs) (inode : Nat) : Option VfsAttr :=
  (vfs.entry inode).map fun entry => attrForKind entry.kind

/-- The directory of a context, an inode for it if it has none. -/
def ctxRootInode (vfs : TagVfs) (m : Mirrors) (context : TagId) : Option Nat × TagVfs :=
  if (m.contextTrees.get context).isNone then (none, vfs)
  else
    match m.ontology.tags.lookup context with
    | none => (none, vfs)
    | some definition =>
        let allocated := vfs.allocateInode (.ctxDir context []) inodeCtxRoot definition.name.toList
        (some allocated.1, allocated.2)

end TagVfs

inductive Errno where
  | noEntry
  | isDirectory
  | readOnlyFileSystem
deriving DecidableEq, Repr

inductive MountRoot where
  | full
  | tagsOnly
  | ctxOnly
  | singleContext (context : TagId)
deriving DecidableEq, Repr

/-- The four times are those of the epoch, the numbers of user and group are zero. -/
structure FileAttr where
  ino : Nat
  size : Nat
  blocks : Nat
  kind : VfsAttrKind
  perm : Nat
  nlink : Nat
deriving DecidableEq, Repr

structure MimisbrunnrFs where
  vfs : TagVfs
  content : ObjectId → Option (List UInt8)
  rootInode : Nat

structure DirEntry where
  ino : Nat
  offset : Nat
  kind : VfsAttrKind
  name : List UInt8
deriving DecidableEq, Repr

namespace MimisbrunnrFs

/-- A context without a projection is mounted as the whole tree. -/
def newWithRoot (m : Mirrors) (vfs : TagVfs) (content : ObjectId → Option (List UInt8)) :
    MountRoot → MimisbrunnrFs
  | .full => ⟨vfs, content, inodeRoot⟩
  | .tagsOnly => ⟨vfs, content, inodeTagsRoot⟩
  | .ctxOnly => ⟨vfs, content, inodeCtxRoot⟩
  | .singleContext context =>
      let found := vfs.ctxRootInode m context
      ⟨found.2, content, found.1.getD inodeRoot⟩

def translate (fs : MimisbrunnrFs) (ino : Nat) : Nat :=
  if ino = inodeRoot ∧ fs.rootInode ≠ inodeRoot then fs.rootInode else ino

def objectForInode (fs : MimisbrunnrFs) (inode : Nat) : Option ObjectId :=
  match fs.vfs.entry inode with
  | some ⟨_, .tagObject oid, _⟩ => some oid
  | some ⟨_, .ctxObject _ oid, _⟩ => some oid
  | _ => none

def makeFileAttr (fs : MimisbrunnrFs) (inode : Nat) (attr : VfsAttr) (oid : Option ObjectId) :
    FileAttr :=
  let size :=
    match attr.kind, oid with
    | .regularFile, some oid =>
        match fs.content oid with
        | some bytes => bytes.length
        | none => attr.size
    | _, _ => attr.size
  { ino := inode
    size := size
    blocks := (size + 511) / 512
    kind := attr.kind
    perm :=
      match attr.kind with
      | .directory => 0o555
      | .regularFile => 0o444
    nlink := attr.nlink }

/-- A name that is not UTF-8 is not looked for. -/
def lookup (m : Mirrors) (fs : MimisbrunnrFs) (parent : Nat) (name : List UInt8) :
    Except Errno FileAttr × MimisbrunnrFs :=
  match Text.decode name with
  | none => (.error .noEntry, fs)
  | some chars =>
      match fs.vfs.lookup m (fs.translate parent) chars with
      | (none, vfs) => (.error .noEntry, { fs with vfs := vfs })
      | (some entry, vfs) =>
          let after := { fs with vfs := vfs }
          match vfs.getattr entry.inode with
          | none => (.error .noEntry, after)
          | some attr =>
              (.ok (after.makeFileAttr entry.inode attr (after.objectForInode entry.inode)), after)

/-- The answer has the number that the kernel asked for. -/
def getattr (fs : MimisbrunnrFs) (ino : Nat) : Except Errno FileAttr :=
  match fs.vfs.getattr (fs.translate ino) with
  | none => .error .noEntry
  | some attr => .ok (fs.makeFileAttr ino attr (fs.objectForInode (fs.translate ino)))

section

-- the room that an entry of a name takes in the buffer of a reply
variable (direntSize : List UInt8 → Nat)

/-- The entries that fit, of those at an index and behind it. -/
def fillReply (vfs : TagVfs) (capacity : Nat) : Nat → Nat → List (List Char × VfsEntry) →
    List DirEntry
  | _, _, [] => []
  | index, used, (name, entry) :: rest =>
      match vfs.getattr entry.inode with
      | none => fillReply vfs capacity (index + 1) used rest
      | some attr =>
          let size := direntSize (Text.encode name)
          if capacity < used + size then []
          else
            { ino := entry.inode
              offset := index + 1
              kind := attr.kind
              name := Text.encode name } ::
              fillReply vfs capacity (index + 1) (used + size) rest

def readdir (m : Mirrors) (fs : MimisbrunnrFs) (ino offset capacity : Nat) :
    List DirEntry × MimisbrunnrFs :=
  let listing := fs.vfs.readdir m (fs.translate ino)
  (fillReply direntSize listing.2 capacity offset 0 (listing.1.drop offset),
    { fs with vfs := listing.2 })

def read (fs : MimisbrunnrFs) (ino offset size : Nat) : Except Errno (List UInt8) :=
  match fs.objectForInode (fs.translate ino) with
  | none => .error .isDirectory
  | some oid =>
      match fs.content oid with
      | none => .error .noEntry
      | some bytes =>
          let start := min offset bytes.length
          let stop := min (start + size) bytes.length
          .ok ((bytes.drop start).take (stop - start))

/-- The calls that would write. -/
inductive WriteCall where
  | write
  | create
  | mkdir
  | unlink
  | rmdir
deriving DecidableEq, Repr

def refuse : WriteCall → Errno := fun _ => .readOnlyFileSystem

inductive KernelCall where
  | lookup (parent : Nat) (name : List UInt8)
  | getattr (ino : Nat)
  | readdir (ino offset capacity : Nat)
  | read (ino offset size : Nat)
  | write (call : WriteCall)
deriving DecidableEq, Repr

def perform (m : Mirrors) (fs : MimisbrunnrFs) : KernelCall → MimisbrunnrFs
  | .lookup parent name => (fs.lookup m parent name).2
  | .readdir ino offset capacity => (readdir direntSize m fs ino offset capacity).2
  | .getattr _ => fs
  | .read _ _ _ => fs
  | .write _ => fs

def performAll (m : Mirrors) (fs : MimisbrunnrFs) (calls : List KernelCall) : MimisbrunnrFs :=
  Runs.run (perform direntSize m) fs calls

/-- Where the kernel goes on behind a page. -/
def nextOffset (offset : Nat) (page : List DirEntry) : Nat :=
  match page.getLast? with
  | some last => last.offset
  | none => offset

/-- The pages of a directory: for each the size of its buffer, and the calls that come
before the next one. -/
def readPages (m : Mirrors) (ino : Nat) : List (Nat × List KernelCall) → Nat → MimisbrunnrFs →
    List (List DirEntry) × MimisbrunnrFs
  | [], _, fs => ([], fs)
  | (capacity, between) :: rest, offset, fs =>
      let page := readdir direntSize m fs ino offset capacity
      let later := readPages m ino rest (nextOffset offset page.1)
        (performAll direntSize m page.2 between)
      (page.1 :: later.1, later.2)

/-- Names that are looked up one after the other, with other calls behind each. -/
def lookupPath (m : Mirrors) : List (List UInt8 × List KernelCall) → Nat → MimisbrunnrFs →
    Except Errno Nat × MimisbrunnrFs
  | [], ino, fs => (.ok ino, fs)
  | (name, between) :: rest, ino, fs =>
      match fs.lookup m ino name with
      | (.error err, after) => (.error err, after)
      | (.ok attr, after) => lookupPath m rest attr.ino (performAll direntSize m after between)

/-- The pieces of a file, each behind the one before it. A failed one ends the reading. -/
def readPieces (m : Mirrors) (ino : Nat) : List (Nat × List KernelCall) → Nat → MimisbrunnrFs →
    Except Errno (List (List UInt8))
  | [], _, _ => .ok []
  | (size, between) :: rest, offset, fs => do
      let piece ← fs.read ino offset size
      let later ← readPieces m ino rest (offset + piece.length)
        (performAll direntSize m fs between)
      .ok (piece :: later)

end

end MimisbrunnrFs

end Mimisbrunnr.Fuse
