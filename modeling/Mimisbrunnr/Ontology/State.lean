import Mathlib.Data.String.Basic
import Mathlib.Order.Lattice.Nat
import Mimisbrunnr.Ontology.DagRuns

/-!
# The ontology registry

`OntologyState` owns the tag tables, the implication graph, the tag relations
and one record per installed module. Installing a module registers its tags,
adds its implications and relations and then checks that every storage axis is
declared along a chain; a failure restores the state from a backup. Upgrading
reinstalls the additive part of a module. Scrubbing removes what only the
scrubbed module's record lists.

The counters of tag ids have 32 bits and wrap, as in a build without overflow
checks. A build with them stops where one of them would wrap.
-/

namespace Mimisbrunnr.Ontology

set_option autoImplicit false

open Mimisbrunnr.Lib
open Mimisbrunnr.Lib.Digraph
open Mimisbrunnr.Lib.FiniteMap
open Mimisbrunnr.Types

structure OntologyModule where
  id : ModuleId
  version : String
  name : String
  tags : List TagDefinition
  implications : List (String × String)
  relations : List (String × TagRelation × String)

structure InstallResult where
  tagsRegistered : Nat
  tagsSkipped : Nat
  implicationsAdded : Nat
  moduleId : ModuleId
  moduleName : String
deriving DecidableEq

structure IdAllocator where
  next : Nat
deriving DecidableEq

namespace IdAllocator

def new : IdAllocator := { next := 1 }

def startingAt (start : Nat) : IdAllocator := { next := max start 1 }

def nextId (allocator : IdAllocator) : TagId × IdAllocator :=
  (allocator.next, { next := (allocator.next + 1) % 2 ^ 32 })

def observe (allocator : IdAllocator) (id : TagId) : IdAllocator :=
  if allocator.next ≤ id then { next := (id + 1) % 2 ^ 32 } else allocator

end IdAllocator

structure ModuleRecord where
  id : ModuleId
  version : String
  name : String
  installedTags : List TagId
  installedImplications : List (TagId × TagId)
  installedRelations : List (TagId × TagRelation × TagId)
deriving DecidableEq

structure OntologyState where
  tags : FMap TagId TagDefinition
  names : FMap String TagId
  dag : ImplicationDag
  relations : List (TagId × TagRelation × TagId)
  installedModules : FMap ModuleId ModuleRecord

/-- Which axis of a storage policy is set. -/
def declares (axis : StorageAxis) (policy : StoragePolicy) : Bool :=
  match axis with
  | .chunking => policy.chunking.isSome
  | .compression => policy.compression.isSome
  | .encryption => policy.encryption.isSome

namespace OntologyState

def new : OntologyState :=
  { tags := ∅
    names := ∅
    dag := ImplicationDag.new
    relations := []
    installedModules := ∅ }

def declaresAxis (s : OntologyState) (axis : StorageAxis) (tag : TagId) : Bool :=
  (s.tags.lookup tag).any fun definition => definition.storage.any (declares axis)

def declaring (s : OntologyState) (axis : StorageAxis) : List TagId :=
  SortedSet.ofFinset (s.tags.keys.filter fun tag => s.declaresAxis axis tag)

def related (s : OntologyState) (a b : TagId) : Bool := s.dag.isA a b || s.dag.isA b a

/-- The first unrelated pair, in the order of the two nested loops. -/
def firstUnrelated (s : OntologyState) : List TagId → Option (TagId × TagId)
  | [] => none
  | a :: rest =>
      match rest.find? fun b => !s.related a b with
      | some b => some (a, b)
      | none => s.firstUnrelated rest

def tagName (s : OntologyState) (tag : TagId) : String :=
  ((s.tags.lookup tag).map TagDefinition.name).getD ""

def checkAxes (s : OntologyState) : List StorageAxis → Except OntologyError Unit
  | [] => .ok ()
  | axis :: rest =>
      match s.firstUnrelated (s.declaring axis) with
      | some (a, b) => .error (.axisConflict axis a (s.tagName a) b (s.tagName b))
      | none => s.checkAxes rest

def checkAxisInvariant (s : OntologyState) : Except OntologyError Unit :=
  s.checkAxes [.chunking, .compression, .encryption]

/-- The loop of the first phase: the state, the allocator, the new tags and the
number of names that were already there. -/
def registerTags : List TagDefinition → OntologyState → IdAllocator → List TagId → Nat →
    OntologyState × IdAllocator × List TagId × Nat
  | [], s, allocator, registered, skipped => (s, allocator, registered, skipped)
  | definition :: rest, s, allocator, registered, skipped =>
      match s.names.lookup definition.name with
      | some existing =>
          registerTags rest s (allocator.observe existing) registered (skipped + 1)
      | none =>
          let (id, allocator) := allocator.nextId
          registerTags rest
            { s with
              dag := s.dag.addTag id
              names := s.names.insert definition.name id
              tags := s.tags.insert id { definition with id := id } }
            allocator (registered ++ [id]) skipped

/-- `implies` of the source's definition also records the implication. -/
def recordImplies (tags : FMap TagId TagDefinition) (source target : TagId) :
    FMap TagId TagDefinition :=
  update tags source fun definition =>
    if target ∈ definition.implies then definition
    else { definition with implies := definition.implies ++ [target] }

def installImplications (topo : Toposort TagId) : List (String × String) → OntologyState →
    List (TagId × TagId) → OntologyState × Except OntologyError (List (TagId × TagId))
  | [], s, added => (s, .ok added)
  | (sourceName, targetName) :: rest, s, added =>
      match s.names.lookup sourceName with
      | none => (s, .error (.unknownTag sourceName))
      | some source =>
          match s.names.lookup targetName with
          | none => (s, .error (.unknownTag targetName))
          | some target =>
              match s.dag.addImplication topo source target with
              | (.error err, dag) => ({ s with dag := dag }, .error err)
              | (.ok _, dag) =>
                  installImplications topo rest
                    { s with
                      dag := dag
                      tags := recordImplies s.tags source target }
                    (added ++ [(source, target)])

def installRelations : List (String × TagRelation × String) → OntologyState →
    List (TagId × TagRelation × TagId) →
    OntologyState × Except OntologyError (List (TagId × TagRelation × TagId))
  | [], s, added => (s, .ok added)
  | (sourceName, kind, targetName) :: rest, s, added =>
      if kind = .impliedBy then
        (s, .error (.moduleParse
          "use [[implications]] instead of a relation of kind `implied-by`"))
      else
        match s.names.lookup sourceName with
        | none => (s, .error (.unknownTag sourceName))
        | some source =>
            match s.names.lookup targetName with
            | none => (s, .error (.unknownTag targetName))
            | some target =>
                let edge := (source, kind, target)
                installRelations rest
                  { s with
                    relations := if edge ∈ s.relations then s.relations else s.relations ++ [edge] }
                  (added ++ [edge])

/-- The state is returned as far as the phases changed it, also on an error. -/
def installInner (topo : Toposort TagId) (s : OntologyState) (bundle : OntologyModule)
    (allocator : IdAllocator) :
    OntologyState × Except OntologyError InstallResult × IdAllocator :=
  let (s, allocator, registered, skipped) := registerTags bundle.tags s allocator [] 0
  match installImplications topo bundle.implications s [] with
  | (s, .error err) => (s, .error err, allocator)
  | (s, .ok implications) =>
      match installRelations bundle.relations s [] with
      | (s, .error err) => (s, .error err, allocator)
      | (s, .ok relations) =>
          match s.checkAxisInvariant with
          | .error err => (s, .error err, allocator)
          | .ok _ =>
              let record : ModuleRecord :=
                { id := bundle.id
                  version := bundle.version
                  name := bundle.name
                  installedTags := registered
                  installedImplications := implications
                  installedRelations := relations }
              ({ s with installedModules := s.installedModules.insert bundle.id record },
                .ok
                  { tagsRegistered := registered.length
                    tagsSkipped := skipped
                    implicationsAdded := implications.length
                    moduleId := bundle.id
                    moduleName := bundle.name },
                allocator)

def install (topo : Toposort TagId) (s : OntologyState) (bundle : OntologyModule)
    (allocator : IdAllocator) :
    OntologyState × Except OntologyError InstallResult × IdAllocator :=
  if (s.installedModules.lookup bundle.id).isSome then
    (s, .error (.moduleAlreadyInstalled bundle.id), allocator)
  else
    let backup := s
    match s.installInner topo bundle allocator with
    | (s, .ok res, allocator) => (s, .ok res, allocator)
    | (_, .error err, allocator) => (backup, .error err, allocator)

def freshAllocator (s : OntologyState) : IdAllocator :=
  if s.tags.keys = ∅ then IdAllocator.startingAt 1
  else IdAllocator.startingAt ((s.tags.keys.sup id + 1) % 2 ^ 32)

/-- The least name of the previous installation that the new module lacks. -/
def removedName (s : OntologyState) (previous : ModuleRecord) (new : OntologyModule) :
    Option String :=
  let previousNames := SortedSet.ofList (previous.installedTags.filterMap fun id =>
    (s.tags.lookup id).map TagDefinition.name)
  previousNames.find? fun name => name ∉ new.tags.map TagDefinition.name

def changesSemantics (s : OntologyState) (definition : TagDefinition) : Bool :=
  match s.names.lookup definition.name with
  | none => false
  | some existing =>
      match s.tags.lookup existing with
      | none => false
      | some registered => registered.semantics ≠ definition.semantics

/-- The entries of `added` not yet in `kept`, appended in order. -/
def combine {α : Type} [DecidableEq α] (kept added : List α) : List α :=
  added.foldl (fun combined x => if x ∈ combined then combined else combined ++ [x]) kept

def mergeRecords (previous new : ModuleRecord) : ModuleRecord :=
  { new with
    installedTags := combine previous.installedTags new.installedTags
    installedImplications := combine previous.installedImplications new.installedImplications
    installedRelations := combine previous.installedRelations new.installedRelations }

def upgrade (topo : Toposort TagId) (s : OntologyState) (new : OntologyModule) :
    OntologyState × Except OntologyError InstallResult :=
  match s.installedModules.lookup new.id with
  | none => (s, .error (.moduleNotInstalled new.id))
  | some previous =>
      match s.removedName previous new with
      | some name =>
          (s, .error (.moduleParse
            ("upgrade would remove tag `" ++ name ++ "`; explicit migration required")))
      | none =>
          match new.tags.find? s.changesSemantics with
          | some definition =>
              (s, .error (.moduleParse
                ("upgrade would change semantics of tag `" ++ definition.name ++ "`")))
          | none =>
              let backup := s
              let s := { s with installedModules := s.installedModules.erase new.id }
              match s.installInner topo new s.freshAllocator with
              | (_, .error err, _) => (backup, .error err)
              | (s, .ok res, _) =>
                  ({ s with
                      installedModules :=
                        update s.installedModules res.moduleId (mergeRecords previous) },
                    .ok
                      { res with tagsSkipped := res.tagsSkipped + previous.installedTags.length })

/-- Some record of the table lists `x`. -/
def claimed {α : Type} [DecidableEq α] (records : FMap ModuleId ModuleRecord)
    (field : ModuleRecord → List α) (x : α) : Prop :=
  ∃ id ∈ records.keys, x ∈ ((records.lookup id).map field).getD []

instance {α : Type} [DecidableEq α] (records : FMap ModuleId ModuleRecord)
    (field : ModuleRecord → List α) (x : α) : Decidable (claimed records field x) :=
  inferInstanceAs (Decidable (∃ id ∈ records.keys, _))

def scrubImplication (records : FMap ModuleId ModuleRecord) (s : OntologyState)
    (edge : TagId × TagId) : OntologyState :=
  if claimed records ModuleRecord.installedImplications edge then s
  else
    { s with
      dag := s.dag.removeImplication edge.1 edge.2
      tags := update s.tags edge.1 fun definition =>
        { definition with implies := definition.implies.filter (· ≠ edge.2) } }

def scrubRelation (records : FMap ModuleId ModuleRecord) (s : OntologyState)
    (edge : TagId × TagRelation × TagId) : OntologyState :=
  if claimed records ModuleRecord.installedRelations edge then s
  else { s with relations := s.relations.filter (· ≠ edge) }

def scrubTag (records : FMap ModuleId ModuleRecord) (s : OntologyState × Nat) (tag : TagId) :
    OntologyState × Nat :=
  if claimed records ModuleRecord.installedTags tag then s
  else
    let names :=
      match s.1.tags.lookup tag with
      | some definition => s.1.names.erase definition.name
      | none => s.1.names
    ({ s.1 with
        tags := s.1.tags.erase tag
        names := names
        dag := s.1.dag.removeTag tag },
      s.2 + 1)

def scrub (s : OntologyState) (moduleId : ModuleId) :
    OntologyState × Except OntologyError Nat :=
  match s.installedModules.lookup moduleId with
  | none => (s, .error (.moduleNotInstalled moduleId))
  | some record =>
      let records := s.installedModules.erase moduleId
      let s := { s with installedModules := records }
      let s := record.installedImplications.foldl (scrubImplication records) s
      let s := record.installedRelations.foldl (scrubRelation records) s
      let (s, removed) := record.installedTags.foldl (scrubTag records) (s, 0)
      (s, .ok removed)

def materialise (s : OntologyState) (direct : List TagId) : List TagId := s.dag.closure direct

/-- A candidate that no other candidate declaring the axis implies. -/
def mostDerived (s : OntologyState) (candidates : List TagId) (axis : StorageAxis) :
    Option TagId :=
  let declaring := candidates.filter fun tag => s.declaresAxis axis tag
  match declaring.find? fun candidate =>
      declaring.all fun other => other = candidate || !s.dag.isA other candidate with
  | some candidate => some candidate
  | none => declaring.min?

def policyOf (s : OntologyState) (tag : TagId) : Option StoragePolicy :=
  (s.tags.lookup tag).bind TagDefinition.storage

def resolvePolicy (s : OntologyState) (objectTags : List TagId) (default : StoragePolicy) :
    StoragePolicy :=
  let materialised := s.materialise objectTags
  { chunking :=
      match s.mostDerived materialised .chunking with
      | some tag => (s.policyOf tag).bind StoragePolicy.chunking
      | none => default.chunking
    compression :=
      match s.mostDerived materialised .compression with
      | some tag => (s.policyOf tag).bind StoragePolicy.compression
      | none => default.compression
    encryption :=
      match s.mostDerived materialised .encryption with
      | some tag => (s.policyOf tag).bind StoragePolicy.encryption
      | none => default.encryption }

end OntologyState

end Mimisbrunnr.Ontology
