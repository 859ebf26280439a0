import Mimisbrunnr.Disk.ObjectIds
import Mimisbrunnr.Engine.Effects
import Mimisbrunnr.Storage.AtomicCommit
import Mimisbrunnr.Unix.ExportRuns
import Mimisbrunnr.Unix.Import

/-!
# Importing into a projection

An import makes one object for each visible file below a directory, records its path
among its assertions, and enters it into the projection of a context. The content of
the files is written later, as blobs. An export writes the blobs of the objects of a
projection to their paths. An import followed by an export gives the visible files
back, at the same names and with the same bytes.
-/

namespace Mimisbrunnr

set_option autoImplicit false

open Mimisbrunnr.Lib
open Mimisbrunnr.Types
open Mimisbrunnr.Unix
open Mimisbrunnr.Storage
open Mimisbrunnr.Ontology
open Mimisbrunnr.Wal

/-- What a command on projections can fail with. The two texts of the source for a missing
context are kept apart by what they name. -/
inductive CommandError where
  | engine (err : EngineError)
  | unix (err : UnixError)
  | scan (err : ScanError)
  | unknownContext (context : String)
  | noProjection (context : String)
deriving DecidableEq

def unixPathTagName : String := "unix-path"

def contextTagName (name : String) : String := "unix-path-context:" ++ name

def buildPathAttr (unixPathTag context : TagId) (path : List Char) : Except UnixError Assertion :=
  match validateRelativePath path with
  | .error err => .error err
  | .ok _ => .ok (.attr unixPathTag (.scoped context (.text (String.ofList path))))

namespace MountedEngine

def withDisk (m : MountedEngine) (d : DiskEngine) : MountedEngine := { m with toDiskEngine := d }

def withTag (m : MountedEngine) (name : String) : TagId × MountedEngine :=
  let registered := m.engine.registerTag name
  (registered.1, m.withDisk { m.toDiskEngine with engine := registered.2 })

/-- The assertion is always an attribute here. -/
def recordPath (env : DiskEnv) (d : DiskEngine) (oid : ObjectId) (assertion : Assertion)
    (readings : Readings) : Except EngineError Unit × DiskEngine :=
  match assertion with
  | .attr key value => d.setAttr env oid key value readings
  | _ => (.ok (), d)

def addPath (m : MountedEngine) (context : String) (contextId : TagId) (oid : ObjectId)
    (path : List Char) : Except CommandError Unit × MountedEngine :=
  match m.side.pathContexts.get contextId with
  -- an `expect` of the source: the projection has been looked up before
  | none => (.error (.noProjection context), m)
  | some projection =>
      match projection.add oid path with
      | .error err => (.error (.unix err), m)
      | .ok added =>
          let projections := m.side.pathContexts.projections.insert contextId added
          (.ok (), { m with side := { m.side with pathContexts := ⟨projections⟩ } })

/-- One file. What has been done stays done when a later part fails. -/
def importFile (env : DiskEnv) (m : MountedEngine) (context : String)
    (contextId unixPathId : TagId) (path : List Char) (readings : Readings × Readings) :
    Except CommandError Unit × MountedEngine :=
  match m.toDiskEngine.createObject env readings.1 with
  | (.error err, d) => (.error (.engine err), m.withDisk d)
  | (.ok oid, d) =>
      match buildPathAttr unixPathId contextId path with
      | .error err => (.error (.unix err), m.withDisk d)
      | .ok assertion =>
          match recordPath env d oid assertion readings.2 with
          | (.error err, d) => (.error (.engine err), m.withDisk d)
          | (.ok _, d) => (m.withDisk d).addPath context contextId oid path

/-- The numbers of the objects made and of the entries passed over. -/
structure ImportCounts where
  created : Nat
  skipped : Nat
deriving DecidableEq, Repr

/-- The clock is read twice for each file. -/
def importEntries (env : DiskEnv) (context : String) (contextId unixPathId : TagId)
    (readings : Nat → Readings × Readings) :
    List ImportEntry → ImportCounts → MountedEngine →
      Except CommandError ImportCounts × MountedEngine
  | [], counts, m => (.ok counts, m)
  | found :: entries, counts, m =>
      if found.kind = .file then
        match m.importFile env context contextId unixPathId found.relativePath
            (readings counts.created) with
        | (.error err, after) => (.error err, after)
        | (.ok _, after) =>
            importEntries env context contextId unixPathId readings entries
              { counts with created := counts.created + 1 } after
      else
        importEntries env context contextId unixPathId readings entries
          { counts with skipped := counts.skipped + 1 } m

def runProjectImport (env : DiskEnv) (m : MountedEngine) (root : HostPath)
    (directory : HostDirectory) (context : String) (readings : Nat → Readings × Readings) :
    Except CommandError ImportCounts × MountedEngine :=
  match m.engine.resolveTagName (contextTagName context) with
  | none => (.error (.unknownContext context), m)
  | some contextId =>
      if (m.side.pathContexts.get contextId).isNone then (.error (.noProjection context), m)
      else
        -- a name that is known keeps its tag
        let (unixPathId, named) := m.withTag unixPathTagName
        match (Importer.new root contextId).scan directory with
        | .error err => (.error (.scan err), named)
        | .ok entries =>
            importEntries env context contextId unixPathId readings entries ⟨0, 0⟩ named

/-- The form that exports a whole projection, onto a tree below the target directory. -/
def runProjectExport (m : MountedEngine) (context : String) (tree : Tree) :
    Except CommandError Tree :=
  match m.engine.resolveTagName (contextTagName context) with
  | none => .error (.unknownContext context)
  | some contextId =>
      match m.side.pathContexts.get contextId with
      | none => .error (.noProjection context)
      | some projection =>
          let plan := Exporter.plan projection (projection.paths.map Prod.fst)
          if plan = [] then .ok tree
          else
            match Exporter.execute plan m.toDiskEngine.readBlob tree with
            | .error err => .error (.unix err)
            | .ok written => .ok written

def pathEntry (unixPathId contextId : TagId) (path : List Char) : Assertion × TagOrigin :=
  (.attr unixPathId (.scoped contextId (.text (String.ofList path))), .direct)

def importedPaths (nodeId : UInt16) (first : Nat) : List (List Char) → List (ObjectId × List Char)
  | [] => []
  | path :: rest => (ObjectId.fromParts nodeId first, path) :: importedPaths nodeId (first + 1) rest

private theorem build_path_attr_ok (unixPathId contextId : TagId) (path : List Char)
    (assertion : Assertion) (ok : buildPathAttr unixPathId contextId path = .ok assertion) :
    assertion = .attr unixPathId (.scoped contextId (.text (String.ofList path))) := by
  unfold buildPathAttr at ok
  split at ok
  · cases ok
  · cases ok
    rfl

/-- An object that is set an attribute keeps its others, and the rest of the engine is as it was. -/
theorem set_attr_ok (env : DiskEnv) (d after : DiskEngine) (oid : ObjectId) (key : TagId)
    (value : Value) (readings : Readings)
    (ok : d.setAttr env oid key value readings = (.ok (), after)) :
    after.blobs = d.blobs ∧ after.engine.nodeId = d.engine.nodeId ∧
      after.engine.nextOidLocal = d.engine.nextOidLocal ∧
      after.engine.ontology = d.engine.ontology ∧
      after.engine.indices = d.engine.indices.setAttr env.hash oid key value := by
  obtain ⟨done, blobs, clock, engine⟩ := DiskEngine.durably_ok env d after _ _ _ _ () ok
  refine ⟨blobs, ?_⟩
  rw [engine]
  unfold Engine.setAttr at done ⊢
  split
  · exact ⟨rfl, rfl, rfl, rfl⟩
  · next absent =>
      rw [if_neg absent] at done
      cases done

private theorem add_path_ok (m after : MountedEngine) (context : String) (contextId : TagId)
    (oid : ObjectId) (path : List Char) (ok : m.addPath context contextId oid path = (.ok (), after)) :
    after.toDiskEngine = m.toDiskEngine ∧
      ∃ projection added, m.side.pathContexts.get contextId = some projection ∧
        after.side.pathContexts.get contextId = some added ∧
        added.paths = PathProjection.insertPath projection.paths oid path := by
  unfold addPath at ok
  split at ok
  · cases ok
  · next projection found =>
      split at ok
      · cases ok
      · next added made =>
          cases ok
          refine ⟨rfl, projection, added, found, by simp [PathContextManager.get], ?_⟩
          unfold PathProjection.add at made
          split at made
          · cases made
          · cases made
            rfl

/-- What the import of one file has done. -/
structure ImportedFile (m after : MountedEngine) (contextId unixPathId : TagId)
    (path : List Char) : Prop where
  nodeId : after.engine.nodeId = m.engine.nodeId
  counter : after.engine.nextOidLocal = Engine.saturatingSucc m.engine.nextOidLocal
  ontology : after.engine.ontology = m.engine.ontology
  blobs : after.blobs = m.blobs
  entries : ∀ other, after.engine.indices.entriesOf other =
    if other = ObjectId.fromParts m.engine.nodeId m.engine.nextOidLocal then
      m.engine.indices.entriesOf other ++ [pathEntry unixPathId contextId path]
    else m.engine.indices.entriesOf other
  paths : ∃ projection added, m.side.pathContexts.get contextId = some projection ∧
    after.side.pathContexts.get contextId = some added ∧
    added.paths = PathProjection.insertPath projection.paths
      (ObjectId.fromParts m.engine.nodeId m.engine.nextOidLocal) path

private theorem import_file_ok (env : DiskEnv) (m after : MountedEngine) (context : String)
    (contextId unixPathId : TagId) (path : List Char) (readings : Readings × Readings)
    (ok : m.importFile env context contextId unixPathId path readings = (.ok (), after)) :
    ImportedFile m after contextId unixPathId path := by
  unfold importFile at ok
  split at ok
  · cases ok
  next oid created made =>
  split at ok
  · cases ok
  next assertion built =>
  have recording := build_path_attr_ok unixPathId contextId path assertion built
  subst recording
  split at ok
  · cases ok
  next _ recorded set =>
  obtain ⟨minted, blobs, clock, engine⟩ := DiskEngine.durably_ok env _ _ _ _ _ _ oid made
  have number : oid = ObjectId.fromParts m.engine.nodeId m.engine.nextOidLocal :=
    DiskEngine.create_object_ok env _ _ _ oid made
  obtain ⟨sameBlobs, sameNode, sameCounter, sameOntology, indices⟩ :=
    set_attr_ok env created recorded oid _ _ _ set
  obtain ⟨disk, projection, added, before, kept, paths⟩ := add_path_ok _ after context contextId
    oid path ok
  have onDisk : after.toDiskEngine = recorded := disk
  constructor
  · rw [onDisk, sameNode, engine]
    rfl
  · rw [onDisk, sameCounter, engine]
    rfl
  · rw [onDisk, sameOntology, engine]
    rfl
  · rw [onDisk, sameBlobs, blobs]
  · intro other
    rw [onDisk, indices, Indices.entries_set_attr, ← number, engine]
    split
    · next same =>
        rw [same]
        rfl
    · rfl
  · rw [← number]
    exact ⟨projection, added, before, kept, paths⟩

/-- No object of a projection has one of the numbers that are still to come. -/
def NumbersUnused (nodeId : UInt16) (first : Nat) (paths : List (ObjectId × List Char)) : Prop :=
  ∀ entry ∈ paths, ∀ number, first ≤ number → number < 2 ^ 48 →
    entry.1 ≠ ObjectId.fromParts nodeId number

/-- What the import of some files has done. -/
structure ImportedFiles (m after : MountedEngine) (contextId unixPathId : TagId)
    (found : List (List Char)) : Prop where
  ontology : after.engine.ontology = m.engine.ontology
  blobs : after.blobs = m.blobs
  recorded : ∀ entry ∈ importedPaths m.engine.nodeId m.engine.nextOidLocal found,
    pathEntry unixPathId contextId entry.2 ∈ after.engine.indices.entriesOf entry.1
  kept : ∀ other, ∀ entry ∈ m.engine.indices.entriesOf other,
    entry ∈ after.engine.indices.entriesOf other
  paths : ∃ projection added, m.side.pathContexts.get contextId = some projection ∧
    after.side.pathContexts.get contextId = some added ∧
    added.paths =
      projection.paths ++ importedPaths m.engine.nodeId m.engine.nextOidLocal found

theorem insert_path_unused (nodeId : UInt16) (first : Nat) (paths : List (ObjectId × List Char))
    (path : List Char) (room : first < 2 ^ 48) (unused : NumbersUnused nodeId first paths) :
    PathProjection.insertPath paths (ObjectId.fromParts nodeId first) path =
        paths ++ [(ObjectId.fromParts nodeId first, path)] ∧
      NumbersUnused nodeId (first + 1)
        (paths ++ [(ObjectId.fromParts nodeId first, path)]) := by
  constructor
  · rw [PathProjection.insertPath, List.filter_eq_self.mpr]
    intro entry member
    exact decide_eq_true (unused entry member first (Nat.le_refl _) room)
  · intro entry member number low high
    rcases List.mem_append.mp member with old | new
    · exact unused entry old number (by omega) high
    · rw [List.mem_singleton.mp new]
      intro same
      have equal := ObjectId.from_parts_injective nodeId first number room high (congrArg _ same)
      omega

private theorem imported_cons {m middle after : MountedEngine} {contextId unixPathId : TagId}
    {path : List Char} {rest : List (List Char)}
    (first : ImportedFile m middle contextId unixPathId path)
    (later : ImportedFiles middle after contextId unixPathId rest)
    (room : m.engine.nextOidLocal < 2 ^ 48)
    (unused : ∀ projection, m.side.pathContexts.get contextId = some projection →
      NumbersUnused m.engine.nodeId m.engine.nextOidLocal projection.paths) :
    ImportedFiles m after contextId unixPathId (path :: rest) := by
  have counter : middle.engine.nextOidLocal = m.engine.nextOidLocal + 1 := by
    rw [first.counter, Engine.saturatingSucc]
    omega
  have numbers : importedPaths middle.engine.nodeId middle.engine.nextOidLocal rest =
      importedPaths m.engine.nodeId (m.engine.nextOidLocal + 1) rest := by
    rw [first.nodeId, counter]
  obtain ⟨projection, added, before, between, paths⟩ := first.paths
  constructor
  · exact later.ontology.trans first.ontology
  · exact later.blobs.trans first.blobs
  · intro entry member
    rcases List.mem_cons.mp member with rfl | further
    · apply later.kept
      rw [first.entries, if_pos rfl]
      exact List.mem_append_right _ List.mem_cons_self
    · rw [← numbers] at further
      exact later.recorded entry further
  · intro other entry member
    apply later.kept
    rw [first.entries]
    split
    · exact List.mem_append_left _ member
    · exact member
  · obtain ⟨start, final, found, last, more⟩ := later.paths
    rw [between] at found
    cases found
    refine ⟨projection, final, before, last, ?_⟩
    rw [more, paths, numbers,
      (insert_path_unused _ _ _ path room (unused projection before)).1, List.append_assoc]
    rfl

def filePaths (entries : List ImportEntry) : List (List Char) :=
  (entries.filter fun found => found.kind = .file).map ImportEntry.relativePath

private theorem import_entries_ok (env : DiskEnv) (context : String) (contextId unixPathId : TagId)
    (readings : Nat → Readings × Readings) (entries : List ImportEntry) :
    ∀ (counts result : ImportCounts) (m after : MountedEngine) (projection : PathProjection),
      m.side.pathContexts.get contextId = some projection →
      NumbersUnused m.engine.nodeId m.engine.nextOidLocal projection.paths →
      m.engine.nextOidLocal + (filePaths entries).length ≤ 2 ^ 48 →
      importEntries env context contextId unixPathId readings entries counts m =
        (.ok result, after) →
      ImportedFiles m after contextId unixPathId (filePaths entries) ∧
        result.created = counts.created + (filePaths entries).length ∧
        result.created + result.skipped = counts.created + counts.skipped + entries.length := by
  induction entries with
  | nil =>
      intro counts result m after projection present unused room ok
      cases ok
      refine ⟨⟨rfl, rfl, ?_, fun _ _ member => member, projection, projection, present, present, ?_⟩,
        rfl, rfl⟩
      · exact fun entry member => absurd member List.not_mem_nil
      · exact (List.append_nil _).symm
  | cons found entries ih =>
      intro counts result m after projection present unused room ok
      unfold importEntries at ok
      split at ok
      · next file =>
          have paths : filePaths (found :: entries) = found.relativePath :: filePaths entries := by
            simp [filePaths, file]
          rw [paths] at room ⊢
          rw [List.length_cons] at room ⊢
          split at ok
          · cases ok
          next _ middle first =>
            have done := import_file_ok env m middle context contextId unixPathId
              found.relativePath _ first
            have small : m.engine.nextOidLocal < 2 ^ 48 := by omega
            have counter : middle.engine.nextOidLocal = m.engine.nextOidLocal + 1 := by
              rw [done.counter, Engine.saturatingSucc]
              omega
            obtain ⟨before, added, here, between, grown⟩ := done.paths
            rw [present] at here
            cases here
            obtain ⟨inserted, still⟩ := insert_path_unused _ _ _ found.relativePath small unused
            obtain ⟨rest, created, total⟩ := ih { counts with created := counts.created + 1 } result
              middle after added between
              (by rw [done.nodeId, counter, grown, inserted]; exact still)
              (by rw [counter]; omega) ok
            dsimp only at created total
            refine ⟨imported_cons done rest small ?_, ?_, ?_⟩
            · intro other same
              rw [present] at same
              cases same
              exact unused
            · omega
            · rw [List.length_cons]
              omega
      · next other =>
          have paths : filePaths (found :: entries) = filePaths entries := by
            simp [filePaths, other]
          rw [paths] at room ⊢
          obtain ⟨rest, created, total⟩ := ih { counts with skipped := counts.skipped + 1 } result
            m after projection present unused room ok
          dsimp only at created total
          refine ⟨rest, created, ?_⟩
          rw [List.length_cons]
          omega

def Spells (path : List Char) (file : List HostName × List UInt8) : Prop :=
  Text.encode path = placePath file.1

def backslash : UInt8 := UInt8.ofNat '\\'.toNat

def PlainPlaces (files : List (List HostName × List UInt8)) : Prop :=
  ∀ file ∈ files, ∀ name ∈ file.1, backslash ∉ name.bytes

private theorem backslash_place (place : List HostName)
    (plain : ∀ name ∈ place, backslash ∉ name.bytes) :
    backslash ∉ placePath place := by
  intro member
  rcases Paths.mem_intercalate _ _ _ member with separator | ⟨part, listed, inside⟩
  · exact absurd separator (by decide)
  · obtain ⟨name, visited, same⟩ := List.mem_map.mp listed
    rw [← same] at inside
    exact plain name visited inside

private theorem spells_of_plain (importer : Importer) (place : List HostName) (bytes : List UInt8)
    (path : List Char) (plain : ∀ name ∈ place, backslash ∉ name.bytes)
    (found : importer.relativePath place = .ok path) : Spells path (place, bytes) := by
  unfold Importer.relativePath at found
  split at found
  · next chars decoded =>
      cases found
      have bytes_kept := Text.encode_of_decode _ chars decoded
      have kept : chars.map Importer.replaceBackslash = chars := by
        rw [List.map_congr_left, List.map_id chars]
        intro char member
        rw [Importer.replaceBackslash, if_neg, id_eq]
        intro same
        apply backslash_place place plain
        rw [← bytes_kept, Text.encode, List.mem_flatMap]
        refine ⟨char, member, ?_⟩
        rw [same]
        decide
      rw [Spells, kept, bytes_kept]
  · cases found

theorem mem_imported (nodeId : UInt16) (found : List (List Char)) :
    ∀ (first : Nat) (entry : ObjectId × List Char),
      entry ∈ importedPaths nodeId first found ↔
        ∃ index, ∃ inside : index < found.length,
          entry = (ObjectId.fromParts nodeId (first + index), found.get ⟨index, inside⟩) := by
  induction found with
  | nil =>
      intro first entry
      constructor
      · exact fun member => absurd member List.not_mem_nil
      · rintro ⟨index, inside, -⟩
        exact absurd inside (Nat.not_lt_zero index)
  | cons path rest ih =>
      intro first entry
      rw [importedPaths, List.mem_cons, ih]
      constructor
      · rintro (rfl | ⟨index, inside, rfl⟩)
        · exact ⟨0, Nat.zero_lt_succ _, rfl⟩
        · refine ⟨index + 1, Nat.succ_lt_succ inside, ?_⟩
          rw [Nat.add_right_comm first 1 index]
          rfl
      · rintro ⟨index, inside, rfl⟩
        cases index with
        | zero => exact Or.inl rfl
        | succ index =>
            refine Or.inr ⟨index, Nat.lt_of_succ_lt_succ inside, ?_⟩
            rw [Nat.add_right_comm first 1 index]
            rfl

def SomeNames (files : List (List HostName × List UInt8)) : Prop := ∀ file ∈ files, file.1 ≠ []

private theorem is_name_of_place (place : List HostName) :
    ∀ part ∈ place.map HostName.bytes, Paths.IsName HostPath.separator HostPath.dot part := by
  intro part listed
  obtain ⟨name, -, rfl⟩ := List.mem_map.mp listed
  exact name.isName

theorem normal_place (path : List Char) (file : List HostName × List UInt8)
    (spells : Spells path file) (named : file.1 ≠ []) :
    HostPath.normal (Text.encode path) = file.1.map HostName.bytes ∧
      HostPath.endsWithName (Text.encode path) = true := by
  have some_name : file.1.map HostName.bytes ≠ [] := by
    rw [ne_eq, List.map_eq_nil_iff]
    exact named
  rw [spells]
  exact ⟨Paths.normal_intercalate _ _ _ some_name (is_name_of_place file.1),
    Paths.ends_with_name_intercalate _ _ _ some_name (is_name_of_place file.1)⟩

private theorem separate_of_places {left right : List Char}
    {first second : List HostName × List UInt8}
    (leftSpells : Spells left first) (rightSpells : Spells right second)
    (leftNamed : first.1 ≠ []) (rightNamed : second.1 ≠ [])
    (apart : Importer.PlacesApart first second) :
    Separate (Text.encode left) (Text.encode right) := by
  have bytes_injective : Function.Injective HostName.bytes := fun _ _ same =>
    HostName.ext_bytes same
  rw [Separate, (normal_place left first leftSpells leftNamed).1,
    (normal_place right second rightSpells rightNamed).1]
  constructor
  · intro within
    exact apart.1 ((List.prefix_map_iff_of_injective bytes_injective).mp within)
  · intro within
    exact apart.2 ((List.prefix_map_iff_of_injective bytes_injective).mp within)

private theorem imported_apart (nodeId : UInt16) (found : List (List Char))
    (files : List (List HostName × List UInt8)) (spelled : List.Forall₂ Spells found files)
    (named : SomeNames files) (apart : files.Pairwise Importer.PlacesApart) :
    ∀ first, PathsApart (importedPaths nodeId first found) := by
  induction spelled with
  | nil => exact fun first => ⟨fun _ member => absurd member List.not_mem_nil, .nil⟩
  | cons here further ih =>
      next path file rest others =>
      intro first
      obtain ⟨others_apart, rest_apart⟩ := List.pairwise_cons.mp apart
      have later := ih (fun other member => named other (List.mem_cons_of_mem _ member)) rest_apart
        (first + 1)
      constructor
      · intro entry member
        rcases List.mem_cons.mp member with rfl | inside
        · exact (normal_place path file here (named file List.mem_cons_self)).2
        · exact later.named entry inside
      · apply List.Pairwise.cons _ later.separate
        intro entry member
        obtain ⟨index, inside, rfl⟩ := (mem_imported nodeId rest (first + 1) entry).mp member
        obtain ⟨length, spells⟩ := List.forall₂_iff_get.mp further
        have within : index < others.length := length ▸ inside
        have listed : others.get ⟨index, within⟩ ∈ others := List.get_mem _ _
        exact separate_of_places here (spells index inside within)
          (named file List.mem_cons_self) (named _ (List.mem_cons_of_mem _ listed))
          (others_apart _ listed)

private theorem with_tag_frame (m : MountedEngine) (name : String) :
    (m.withTag name).2.engine.nodeId = m.engine.nodeId ∧
      (m.withTag name).2.engine.nextOidLocal = m.engine.nextOidLocal ∧
      (m.withTag name).2.side = m.side := by
  unfold withTag Engine.registerTag
  dsimp only
  split
  · exact ⟨rfl, rfl, rfl⟩
  · exact ⟨rfl, rfl, rfl⟩

/-- The visible files of a directory, in the order in which they are imported. -/
def visibleFiles (root : HostPath) (contextId : TagId) (directory : HostDirectory) :
    List (List HostName × List UInt8) :=
  (Importer.new root contextId).files [] directory

private theorem visible_named (root : HostPath) (contextId : TagId) (directory : HostDirectory) :
    SomeNames (visibleFiles root contextId directory) := by
  intro file member
  obtain ⟨name, -, below, here⟩ := Importer.files_below _ directory [] file member
  rw [here]
  exact List.cons_ne_nil _ _

private theorem scan_spells (root : HostPath) (contextId : TagId) (directory : HostDirectory)
    (entries : List ImportEntry) (plain : PlainPlaces (visibleFiles root contextId directory))
    (scanned : (Importer.new root contextId).scan directory = .ok entries) :
    List.Forall₂ Spells (filePaths entries) (visibleFiles root contextId directory) := by
  have described := Importer.walk_files (Importer.new root contextId) directory [] entries scanned
  rw [filePaths, List.forall₂_map_left_iff]
  rw [List.forall₂_iff_get] at described ⊢
  refine ⟨described.1, ?_⟩
  intro index first second
  have listed : (visibleFiles root contextId directory).get ⟨index, second⟩ ∈
      visibleFiles root contextId directory := List.get_mem _ _
  exact spells_of_plain _ _ _ _ (plain _ listed) (described.2 index first second).1

/-- The projection after an import into an empty one. -/
theorem run_project_import_ok (env : DiskEnv) (m after : MountedEngine) (root : HostPath)
    (directory : HostDirectory) (context : String) (contextId : TagId)
    (readings : Nat → Readings × Readings) (counts : ImportCounts)
    (known : m.engine.resolveTagName (contextTagName context) = some contextId)
    (fresh : m.side.pathContexts.get contextId = some (PathProjection.new contextId))
    (plain : PlainPlaces (visibleFiles root contextId directory))
    (room : m.engine.nextOidLocal + (visibleFiles root contextId directory).length ≤ 2 ^ 48)
    (imported : m.runProjectImport env root directory context readings = (.ok counts, after)) :
    ∃ found : List (List Char),
      List.Forall₂ Spells found (visibleFiles root contextId directory) ∧
      counts.created = found.length ∧
      (∀ entry ∈ importedPaths m.engine.nodeId m.engine.nextOidLocal found,
        pathEntry (m.withTag unixPathTagName).1 contextId entry.2 ∈
          after.engine.indices.entriesOf entry.1) ∧
      ∃ projection, after.side.pathContexts.get contextId = some projection ∧
        projection.paths = importedPaths m.engine.nodeId m.engine.nextOidLocal found := by
  unfold runProjectImport at imported
  rw [known] at imported
  dsimp only at imported
  rw [fresh] at imported
  simp only [Option.isNone_some, Bool.false_eq_true, if_false] at imported
  split at imported
  · cases imported
  next entries scanned =>
  have spelled := scan_spells root contextId directory entries plain scanned
  obtain ⟨node, counter, side⟩ := with_tag_frame m unixPathTagName
  obtain ⟨files, created, -⟩ := import_entries_ok env context contextId _ readings entries ⟨0, 0⟩
    counts _ after (PathProjection.new contextId) (by rw [side]; exact fresh)
    (fun entry member => absurd member List.not_mem_nil)
    (by rw [counter, spelled.length_eq]; exact room) imported
  have recorded := files.recorded
  obtain ⟨start, projection, before, here, paths⟩ := files.paths
  rw [node, counter] at recorded paths
  rw [side] at before
  refine ⟨filePaths entries, spelled, ?_, recorded, projection, here, ?_⟩
  · rw [created, Nat.zero_add]
  · have none_yet : start = PathProjection.new contextId :=
      Option.some.inj (before.symm.trans fresh)
    rw [paths, none_yet]
    rfl

private theorem run_project_export_eq (m : MountedEngine) (context : String) (contextId : TagId)
    (projection : PathProjection) (tree : Tree)
    (known : m.engine.resolveTagName (contextTagName context) = some contextId)
    (present : m.side.pathContexts.get contextId = some projection) :
    m.runProjectExport context tree =
      (Exporter.execute (Exporter.plan projection (projection.paths.map Prod.fst))
        m.toDiskEngine.readBlob tree).mapError .unix := by
  unfold runProjectExport
  rw [known]
  dsimp only
  rw [present]
  dsimp only
  split
  · next nothing =>
      rw [nothing, Exporter.execute, Exporter.sorted, List.mergeSort_nil]
      rfl
  · split
    · next err failed =>
        rw [failed]
        rfl
    · next written done =>
        rw [done]
        rfl

/-- Once the bytes of the files are stored, an export gives the imported files back. -/
theorem import_then_export (env : DiskEnv) (m after later : MountedEngine) (root : HostPath)
    (directory : HostDirectory) (context : String) (contextId : TagId)
    (readings : Nat → Readings × Readings) (counts : ImportCounts)
    (known : m.engine.resolveTagName (contextTagName context) = some contextId)
    (fresh : m.side.pathContexts.get contextId = some (PathProjection.new contextId))
    (distinct : directory.Distinct)
    (plain : PlainPlaces (visibleFiles root contextId directory))
    (room : m.engine.nextOidLocal + (visibleFiles root contextId directory).length ≤ 2 ^ 48)
    (imported : m.runProjectImport env root directory context readings = (.ok counts, after))
    (sameName : later.engine.resolveTagName (contextTagName context) = some contextId)
    (sameProjection :
      later.side.pathContexts.get contextId = after.side.pathContexts.get contextId)
    (stored : ∀ index, ∀ inside : index < (visibleFiles root contextId directory).length,
      later.readBlob (ObjectId.fromParts m.engine.nodeId (m.engine.nextOidLocal + index)) =
        some ((visibleFiles root contextId directory).get ⟨index, inside⟩).2) :
    counts.created = (visibleFiles root contextId directory).length ∧
      (∀ index, ∀ inside : index < (visibleFiles root contextId directory).length,
        ∃ path, Spells path ((visibleFiles root contextId directory).get ⟨index, inside⟩) ∧
          pathEntry (m.withTag unixPathTagName).1 contextId path ∈ after.engine.indices.entriesOf
            (ObjectId.fromParts m.engine.nodeId (m.engine.nextOidLocal + index))) ∧
      ∃ tree, later.runProjectExport context Tree.empty = .ok tree ∧
        ∀ place bytes, tree place = some (.file bytes) ↔
          ∃ file ∈ visibleFiles root contextId directory,
            file.1.map HostName.bytes = place ∧ file.2 = bytes := by
  obtain ⟨found, spelled, created, recorded, projection, here, paths⟩ := run_project_import_ok env m after
    root directory context contextId readings counts known fresh plain room imported
  have named := visible_named root contextId directory
  have apart : PathsApart projection.paths := by
    rw [paths]
    exact imported_apart _ found _ spelled named (Importer.files_apart _ directory distinct []) _
  have same_length := spelled.length_eq
  have spells := (List.forall₂_iff_get.mp spelled).2
  refine ⟨created.trans same_length, ?_, ?_⟩
  · intro index within
    have inside : index < found.length := same_length ▸ within
    exact ⟨_, spells index inside within,
      recorded _ ((mem_imported _ found _ _).mpr ⟨index, inside, rfl⟩)⟩
  obtain ⟨tree, executed, files⟩ := executed_of_apart projection apart
    (projection.paths.map Prod.fst) later.toDiskEngine.readBlob projection.distinct
    (by
      intro oid listed
      obtain ⟨entry, member, rfl⟩ := List.mem_map.mp listed
      rw [paths] at member
      obtain ⟨index, inside, rfl⟩ := (mem_imported _ found _ entry).mp member
      rw [stored index (same_length ▸ inside)]
      rfl)
  refine ⟨tree, ?_, ?_⟩
  · rw [run_project_export_eq later context contextId projection Tree.empty sameName
      (sameProjection.trans here), executed]
    rfl
  · intro place bytes
    rw [files]
    constructor
    · rintro ⟨entry, planned, rfl, content⟩
      obtain ⟨-, -, rel, mapped, path⟩ := (mem_plan _ _ entry).mp planned
      rw [paths] at mapped
      obtain ⟨index, inside, pair⟩ := (mem_imported _ found _ _).mp mapped
      obtain ⟨oid, text⟩ := Prod.mk.inj pair
      have within := same_length ▸ inside
      rw [oid, stored index within] at content
      refine ⟨_, List.get_mem _ ⟨index, within⟩, ?_, Option.some.inj content⟩
      rw [path, text]
      exact (normal_place _ _ (spells index inside within) (named _ (List.get_mem _ _))).1.symm
    · rintro ⟨file, member, rfl, rfl⟩
      obtain ⟨⟨index, within⟩, rfl⟩ := List.mem_iff_get.mp member
      have inside : index < found.length := same_length ▸ within
      have mapped : (ObjectId.fromParts m.engine.nodeId (m.engine.nextOidLocal + index),
          found.get ⟨index, inside⟩) ∈ projection.paths := by
        rw [paths]
        exact (mem_imported _ found _ _).mpr ⟨index, inside, rfl⟩
      refine ⟨⟨_, Text.encode (found.get ⟨index, inside⟩), .createFile⟩, ?_, ?_,
        stored index within⟩
      · exact (mem_plan _ _ _).mpr ⟨List.mem_map_of_mem mapped, rfl, _, mapped, rfl⟩
      · exact (normal_place _ _ (spells index inside within) (named _ member)).1

def letter (char : Char) (plain : Paths.IsName HostPath.separator HostPath.dot
      [UInt8.ofNat char.toNat] ∧ 0 ∉ [UInt8.ofNat char.toNat]) : HostName :=
  { bytes := [UInt8.ofNat char.toNat]
    isName := plain.1
    noNul := plain.2 }

/-- The file `d/a` of three bytes, and an empty directory `e`. -/
def smallDirectory : HostDirectory :=
  .directory (letter 'd' (by unfold Paths.IsName; decide)) 0
    (.file (letter 'a' (by unfold Paths.IsName; decide)) [1, 2, 3] 0 .empty)
    (.directory (letter 'e' (by unfold Paths.IsName; decide)) 0 .empty .empty)

/-- The CBOR payloads of the creation of the first object and of its path. -/
def importPayloads : List (WalOp × List UInt8) :=
  [(.createObject 0x0001000000000001 0 0,
      [0xa3, 0x63, 0x6f, 0x69, 0x64, 0x1b, 0x00, 0x01, 0x00, 0x00, 0x00, 0x00, 0x00, 0x01,
        0x6a, 0x67, 0x65, 0x6e, 0x65, 0x72, 0x61, 0x74, 0x69, 0x6f, 0x6e, 0x00, 0x6a, 0x63,
        0x72, 0x65, 0x61, 0x74, 0x65, 0x64, 0x5f, 0x6e, 0x73, 0x00]),
    (.setAttr 0x0001000000000001 8 (.scoped 7 (.text "d/a")),
      [0xa3, 0x63, 0x6f, 0x69, 0x64, 0x1b, 0x00, 0x01, 0x00, 0x00, 0x00, 0x00, 0x00, 0x01,
        0x63, 0x6b, 0x65, 0x79, 0x08, 0x65, 0x76, 0x61, 0x6c, 0x75, 0x65, 0xa1, 0x66, 0x53,
        0x63, 0x6f, 0x70, 0x65, 0x64, 0xa2, 0x67, 0x63, 0x6f, 0x6e, 0x74, 0x65, 0x78, 0x74,
        0x07, 0x65, 0x69, 0x6e, 0x6e, 0x65, 0x72, 0xa1, 0x64, 0x54, 0x65, 0x78, 0x74, 0x63,
        0x64, 0x2f, 0x61])]

/-- The hash is that of the path. -/
def importEnv : DiskEnv :=
  { DiskEngine.diskSample with
    hash := fun value => if value = .scoped 7 (.text "d/a") then 0x0c8e1225144e25ba else 0
    codec := WalCodec.ofTable importPayloads (by decide +kernel) }

/-- A fresh pool with a context and the tag of paths. -/
def importPool : MountedEngine :=
  { DiskEngine.freshPool with
    engine :=
      { Engine.new 1 with
        ontology :=
          { OntologyState.new with
            names := (∅ : FiniteMap.FMap String TagId).insert "unix-path-context:c" 7
              |>.insert "unix-path" 8 } }
    side :=
      { SideTables.new with
        pathContexts := ⟨(∅ : FiniteMap.FMap TagId PathProjection).insert 7 (PathProjection.new 7)⟩ }
    superblock := Superblock.newBlank crc32c Superblock.blankFormat 0
    config := Pool.wideConfig
    handle := { path := Pool.wideDisk.path, capacity := 0, readOnly := false }
    files := Pool.emptyHost }

/-- The import of the small directory, without readings of the clock. -/
def smallImport : Except CommandError ImportCounts × MountedEngine :=
  importPool.runProjectImport importEnv (Text.encode ['/', 'h']) smallDirectory "c"
    fun _ => (DiskEngine.noReadings, DiskEngine.noReadings)

/-- The pool once the content of the file is stored. -/
def smallStored : MountedEngine :=
  smallImport.2.withDisk
    { smallImport.2.toDiskEngine with
      blobs := (∅ : FiniteMap.FMap Nat (List UInt8)).insert 1 [1, 2, 3] }

set_option maxRecDepth 100000 in
theorem import_then_export_small :
    ∃ tree, smallStored.runProjectExport "c" Tree.empty = .ok tree ∧
      tree [[100], [97]] = some (.file [1, 2, 3]) := by
  have one : smallImport.1 = .ok ⟨1, 2⟩ := by decide +kernel
  have only : visibleFiles (Text.encode ['/', 'h']) 7 smallDirectory =
      [([letter 'd' (by unfold Paths.IsName; decide), letter 'a' (by unfold Paths.IsName; decide)],
        [1, 2, 3])] := by decide +kernel
  obtain ⟨-, -, tree, done, files⟩ := import_then_export importEnv importPool smallImport.2
    smallStored (Text.encode ['/', 'h']) smallDirectory "c" 7 _ ⟨1, 2⟩ (by decide +kernel)
    rfl ⟨by decide +kernel, ⟨by decide +kernel, trivial⟩, ⟨by decide +kernel, trivial, trivial⟩⟩
    (by
      rw [only]
      unfold PlainPlaces
      decide +kernel)
    (by
      rw [only]
      decide +kernel)
    (Prod.ext one rfl) (by decide +kernel) rfl
    (by
      rw [only]
      intro index inside
      have zero : index = 0 := Nat.lt_one_iff.mp inside
      subst zero
      change smallStored.readBlob _ = some [1, 2, 3]
      decide +kernel)
  refine ⟨tree, done, ?_⟩
  rw [files, only]
  exact ⟨_, List.mem_cons_self, by decide +kernel, rfl⟩

end MountedEngine

end Mimisbrunnr
