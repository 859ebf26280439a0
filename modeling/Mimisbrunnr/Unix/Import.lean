import Mimisbrunnr.Unix.Export

/-!
# Importing a directory

The walk over a directory of the host gives one entry for each visible file, link
and directory, with its path below the root. Hidden names and what is below them
are passed over; a path that is not UTF-8 ends the walk. Links are not followed.
-/

namespace Mimisbrunnr.Unix

set_option autoImplicit false

open Mimisbrunnr.Lib
open Mimisbrunnr.Types

/-- A name as a directory of the host can have it. -/
structure HostName where
  bytes : HostPath
  isName : Paths.IsName HostPath.separator HostPath.dot bytes
  noNul : 0 ∉ bytes

theorem HostName.ext_bytes {left right : HostName} (same : left.bytes = right.bytes) :
    left = right := by
  cases left
  cases right
  cases same
  rfl

instance : DecidableEq HostName := fun left right =>
  decidable_of_iff (left.bytes = right.bytes) ⟨HostName.ext_bytes, congrArg HostName.bytes⟩

/-- The contents of a directory, in the order in which the host lists them. -/
inductive HostDirectory where
  | empty
  | file (name : HostName) (bytes : List UInt8) (modifiedNs : Int64) (rest : HostDirectory)
  | symlink (name : HostName) (target : HostPath) (modifiedNs : Int64) (rest : HostDirectory)
  | directory (name : HostName) (modifiedNs : Int64) (inside rest : HostDirectory)

namespace HostDirectory

def names : HostDirectory → List HostName
  | empty => []
  | file name _ _ rest => name :: rest.names
  | symlink name _ _ rest => name :: rest.names
  | directory name _ _ rest => name :: rest.names

/-- Every name stands once in its directory. -/
def Distinct : HostDirectory → Prop
  | empty => True
  | file name _ _ rest => name ∉ rest.names ∧ rest.Distinct
  | symlink name _ _ rest => name ∉ rest.names ∧ rest.Distinct
  | directory name _ inside rest => name ∉ rest.names ∧ inside.Distinct ∧ rest.Distinct

end HostDirectory

def placePath (place : List HostName) : HostPath :=
  [HostPath.separator].intercalate (place.map HostName.bytes)

inductive ImportKind where
  | file
  | symlink (target : HostPath)
  | directory
deriving DecidableEq, Repr

structure ImportEntry where
  hostPath : HostPath
  relativePath : List Char
  kind : ImportKind
  sizeBytes : Nat
  modifiedNs : Int64
deriving DecidableEq

/-- The error of a walk, the only one of the source that an export does not have. -/
inductive ScanError where
  | nonUtf8Path (path : HostPath)
deriving DecidableEq, Repr

structure Importer where
  root : HostPath
  context : TagId
  includeHidden : Bool

namespace Importer

def new (root : HostPath) (context : TagId) : Importer :=
  { root := root
    context := context
    includeHidden := false }

/-- A name that is not UTF-8 is not taken for a hidden one. -/
def hides (importer : Importer) (name : HostName) : Bool :=
  !importer.includeHidden &&
    match Text.decode name.bytes with
    | some ('.' :: _) => true
    | _ => false

def hostPath (importer : Importer) (place : List HostName) : HostPath :=
  importer.root.join (placePath place)

def replaceBackslash (char : Char) : Char := if char = '\\' then '/' else char

def relativePath (importer : Importer) (place : List HostName) : Except ScanError (List Char) :=
  match Text.decode (placePath place) with
  | some chars => .ok (chars.map replaceBackslash)
  | none => .error (.nonUtf8Path (importer.hostPath place))

def entry (importer : Importer) (place : List HostName) (kind : ImportKind) (sizeBytes : Nat)
    (modifiedNs : Int64) : Except ScanError ImportEntry := do
  let relativePath ← importer.relativePath place
  .ok
    { hostPath := importer.hostPath place
      relativePath := relativePath
      kind := kind
      sizeBytes := sizeBytes
      modifiedNs := modifiedNs }

def walk (importer : Importer) (place : List HostName) :
    HostDirectory → Except ScanError (List ImportEntry)
  | .empty => .ok []
  | .file name bytes modifiedNs rest =>
      if importer.hides name then walk importer place rest
      else do
        let found ← importer.entry (place ++ [name]) .file bytes.length modifiedNs
        let later ← walk importer place rest
        .ok (found :: later)
  | .symlink name target modifiedNs rest =>
      if importer.hides name then walk importer place rest
      else do
        let found ← importer.entry (place ++ [name]) (.symlink target) 0 modifiedNs
        let later ← walk importer place rest
        .ok (found :: later)
  | .directory name modifiedNs inside rest =>
      if importer.hides name then walk importer place rest
      else do
        let found ← importer.entry (place ++ [name]) .directory 0 modifiedNs
        let within ← walk importer (place ++ [name]) inside
        let later ← walk importer place rest
        .ok (found :: within ++ later)

def scan (importer : Importer) (directory : HostDirectory) : Except ScanError (List ImportEntry) :=
  importer.walk [] directory

/-- The files that a walk comes to, with their places and bytes. -/
def files (importer : Importer) (place : List HostName) :
    HostDirectory → List (List HostName × List UInt8)
  | .empty => []
  | .file name bytes _ rest =>
      if importer.hides name then files importer place rest
      else (place ++ [name], bytes) :: files importer place rest
  | .symlink _ _ _ rest => files importer place rest
  | .directory name _ inside rest =>
      if importer.hides name then files importer place rest
      else files importer (place ++ [name]) inside ++ files importer place rest

def Describes (importer : Importer) (found : ImportEntry) (file : List HostName × List UInt8) :
    Prop :=
  importer.relativePath file.1 = .ok found.relativePath ∧ found.sizeBytes = file.2.length

private theorem entry_ok {importer : Importer} {place : List HostName} {kind : ImportKind}
    {sizeBytes : Nat} {modifiedNs : Int64} {found : ImportEntry}
    (ok : importer.entry place kind sizeBytes modifiedNs = .ok found) :
    importer.relativePath place = .ok found.relativePath ∧ found.kind = kind ∧
      found.sizeBytes = sizeBytes := by
  unfold entry at ok
  simp only [bind, Except.bind] at ok
  split at ok
  · cases ok
  · next _ path =>
      cases ok
      exact ⟨path, rfl, rfl⟩

/-- The entries of files are those of the files, in their order. -/
theorem walk_files (importer : Importer) (directory : HostDirectory) :
    ∀ (place : List HostName) (entries : List ImportEntry),
      importer.walk place directory = .ok entries →
      List.Forall₂ importer.Describes (entries.filter fun found => found.kind = .file)
        (importer.files place directory) := by
  induction directory with
  | empty =>
      intro place entries ok
      cases ok
      exact .nil
  | file name bytes modifiedNs rest ih =>
      intro place entries ok
      unfold walk at ok
      unfold files
      split at ok
      · next hidden =>
          rw [if_pos hidden]
          exact ih place entries ok
      · next visible =>
          rw [if_neg visible]
          simp only [bind, Except.bind] at ok
          split at ok
          · cases ok
          next found here =>
          split at ok
          · cases ok
          next later after =>
            cases ok
            obtain ⟨path, kind, size⟩ := entry_ok here
            rw [List.filter_cons_of_pos (by rw [kind]; rfl)]
            exact .cons ⟨path, size⟩ (ih place later after)
  | symlink name target modifiedNs rest ih =>
      intro place entries ok
      unfold walk at ok
      unfold files
      split at ok
      · exact ih place entries ok
      · simp only [bind, Except.bind] at ok
        split at ok
        · cases ok
        next found here =>
        split at ok
        · cases ok
        next later after =>
          cases ok
          obtain ⟨-, kind, -⟩ := entry_ok here
          rw [List.filter_cons_of_neg (by rw [kind]; simp)]
          exact ih place later after
  | directory name modifiedNs inside rest ihInside ih =>
      intro place entries ok
      unfold walk at ok
      unfold files
      split at ok
      · next hidden =>
          rw [if_pos hidden]
          exact ih place entries ok
      · next visible =>
          rw [if_neg visible]
          simp only [bind, Except.bind] at ok
          split at ok
          · cases ok
          next found here =>
          split at ok
          · cases ok
          next within below =>
          split at ok
          · cases ok
          next later after =>
            cases ok
            obtain ⟨-, kind, -⟩ := entry_ok here
            rw [List.cons_append, List.filter_cons_of_neg (by rw [kind]; simp), List.filter_append]
            exact List.rel_append (ihInside _ within below) (ih place later after)

theorem files_below (importer : Importer) (directory : HostDirectory) :
    ∀ (place : List HostName), ∀ file ∈ importer.files place directory,
      ∃ name ∈ directory.names, ∃ below, file.1 = place ++ name :: below := by
  induction directory with
  | empty => exact fun place file member => absurd member List.not_mem_nil
  | file name bytes modifiedNs rest ih =>
      intro place file member
      unfold files at member
      have further (inside : file ∈ importer.files place rest) :
          ∃ found ∈ name :: rest.names, ∃ below, file.1 = place ++ found :: below := by
        obtain ⟨found, listed, below⟩ := ih place file inside
        exact ⟨found, List.mem_cons_of_mem _ listed, below⟩
      split at member
      · exact further member
      · rcases List.mem_cons.mp member with rfl | inside
        · exact ⟨name, List.mem_cons_self, [], rfl⟩
        · exact further inside
  | symlink name target modifiedNs rest ih =>
      intro place file member
      obtain ⟨found, listed, below⟩ := ih place file member
      exact ⟨found, List.mem_cons_of_mem _ listed, below⟩
  | directory name modifiedNs inside rest ihInside ih =>
      intro place file member
      unfold files at member
      have further (inside : file ∈ importer.files place rest) :
          ∃ found ∈ name :: rest.names, ∃ below, file.1 = place ++ found :: below := by
        obtain ⟨found, listed, below⟩ := ih place file inside
        exact ⟨found, List.mem_cons_of_mem _ listed, below⟩
      split at member
      · exact further member
      · rcases List.mem_append.mp member with within | later
        · obtain ⟨found, -, below, here⟩ := ihInside _ file within
          refine ⟨name, List.mem_cons_self, found :: below, ?_⟩
          rw [here, List.append_assoc, List.singleton_append]
        · exact further later

def PlacesApart (left right : List HostName × List UInt8) : Prop :=
  ¬ left.1 <+: right.1 ∧ ¬ right.1 <+: left.1

private theorem apart_of_names (place first second : List HostName) (left right : HostName)
    (different : left ≠ right) : ¬ place ++ left :: first <+: place ++ right :: second := by
  intro within
  rw [List.prefix_append_right_inj, List.cons_prefix_cons] at within
  exact different within.1

theorem files_apart (importer : Importer) (directory : HostDirectory)
    (distinct : directory.Distinct) :
    ∀ place : List HostName, (importer.files place directory).Pairwise PlacesApart := by
  -- places that go on with different names
  have apart (place : List HostName) (first second : List HostName × List UInt8)
      (left right : HostName) (front back : List HostName) (different : left ≠ right)
      (here : first.1 = place ++ left :: front) (there : second.1 = place ++ right :: back) :
      PlacesApart first second := by
    rw [PlacesApart, here, there]
    exact ⟨apart_of_names place _ _ _ _ different,
      apart_of_names place _ _ _ _ (Ne.symm different)⟩
  induction directory with
  | empty => exact fun _ => .nil
  | file name bytes modifiedNs rest ih =>
      intro place
      unfold files
      split
      · exact ih distinct.2 place
      · apply List.Pairwise.cons _ (ih distinct.2 place)
        intro other member
        obtain ⟨found, listed, below, there⟩ := files_below importer rest place other member
        refine apart place _ other name found [] below ?_ rfl there
        intro same
        exact distinct.1 (same ▸ listed)
  | symlink name target modifiedNs rest ih => exact ih distinct.2
  | directory name modifiedNs inside rest ihInside ih =>
      intro place
      unfold files
      split
      · exact ih distinct.2.2 place
      · rw [List.pairwise_append]
        refine ⟨ihInside distinct.2.1 _, ih distinct.2.2 place, ?_⟩
        intro first firstMember second secondMember
        obtain ⟨under, -, below, here⟩ := files_below importer inside _ first firstMember
        obtain ⟨found, listed, further, there⟩ := files_below importer rest place second secondMember
        refine apart place first second name found (under :: below) further ?_ ?_ there
        · intro same
          exact distinct.1 (same ▸ listed)
        · rw [here, List.append_assoc, List.singleton_append]

end Importer

end Mimisbrunnr.Unix
