import Mimisbrunnr.Lib.FiniteMap
import Mimisbrunnr.Types.Object
import Mimisbrunnr.Types.Value

/-!
# Path projections

A projection gives objects a relative path in one context. The source keeps the
pairs in a hash map; here they are a list in the order in which the map is
iterated, with one pair per object. A path is the list of its characters.
-/

namespace Mimisbrunnr.Unix

set_option autoImplicit false

open Mimisbrunnr.Lib.FiniteMap
open Mimisbrunnr.Types

inductive UnixError where
  | emptyPath
  | absolutePath (path : List Char)
  | nulInPath (path : List Char)
  | parentTraversal (path : List Char)
  | cbor (message : String)
  | io (message : String)
  | missingContent (oid : UInt64)
deriving DecidableEq, Repr

def validateRelativePath (path : List Char) : Except UnixError Unit :=
  if path = [] then .error .emptyPath
  else if path.head? = some '/' then .error (.absolutePath path)
  else if '\x00' ∈ path then .error (.nulInPath path)
  else if ['.', '.'] ∈ path.splitOn '/' then .error (.parentTraversal path)
  else .ok ()

structure PathProjection where
  context : TagId
  paths : List (ObjectId × List Char)
  distinct : (paths.map Prod.fst).Nodup
  valid : ∀ entry ∈ paths, validateRelativePath entry.2 = .ok ()

namespace PathProjection

def new (context : TagId) : PathProjection :=
  { context := context
    paths := []
    distinct := List.nodup_nil
    valid := by simp }

def insertPath (paths : List (ObjectId × List Char)) (oid : ObjectId) (path : List Char) :
    List (ObjectId × List Char) :=
  paths.filter (·.1 ≠ oid) ++ [(oid, path)]

private theorem distinct_insert_path (paths : List (ObjectId × List Char))
    (distinct : (paths.map Prod.fst).Nodup) (oid : ObjectId) (path : List Char) :
    ((insertPath paths oid path).map Prod.fst).Nodup := by
  rw [insertPath, List.map_append, List.nodup_append]
  refine ⟨distinct.sublist (List.filter_sublist.map Prod.fst), by simp, ?_⟩
  intro first firstMember second secondMember same
  obtain ⟨entry, kept, rfl⟩ := List.mem_map.mp firstMember
  have other := (List.mem_filter.mp kept).2
  have last : second = oid := by simpa using secondMember
  simp [same, last] at other

def add (projection : PathProjection) (oid : ObjectId) (path : List Char) :
    Except UnixError PathProjection :=
  match checked : validateRelativePath path with
  | .error err => .error err
  | .ok _ =>
      .ok
        { context := projection.context
          paths := insertPath projection.paths oid path
          distinct := distinct_insert_path projection.paths projection.distinct oid path
          valid := by
            intro entry member
            rcases List.mem_append.mp member with kept | added
            · exact projection.valid entry (List.mem_filter.mp kept).1
            · rw [List.mem_singleton.mp added]
              exact checked }

def remove (projection : PathProjection) (oid : ObjectId) : PathProjection :=
  { context := projection.context
    paths := projection.paths.filter (·.1 ≠ oid)
    distinct := projection.distinct.sublist (List.filter_sublist.map Prod.fst)
    valid := fun entry member => projection.valid entry (List.mem_filter.mp member).1 }

def lookup (projection : PathProjection) (oid : ObjectId) : Option (List Char) :=
  (projection.paths.find? fun entry => entry.1 = oid).map Prod.snd

theorem lookup_eq_some (projection : PathProjection) (oid : ObjectId) (path : List Char) :
    projection.lookup oid = some path ↔ (oid, path) ∈ projection.paths := by
  constructor
  · intro found
    obtain ⟨entry, located, same⟩ := Option.map_eq_some_iff.mp found
    have matched : entry.1 = oid := by simpa using List.find?_some located
    have member := List.mem_of_find?_eq_some located
    rw [← same, ← matched]
    exact member
  · intro member
    rw [lookup]
    cases located : projection.paths.find? fun entry => entry.1 = oid with
    | none =>
        have unmatched := List.find?_eq_none.mp located (oid, path) member
        simp at unmatched
    | some entry =>
        have matched : entry.1 = oid := by simpa using List.find?_some located
        have inside := List.mem_of_find?_eq_some located
        have same := List.inj_on_of_nodup_map projection.distinct inside member matched
        rw [same]
        rfl

def reverseLookup (projection : PathProjection) (path : List Char) : Option ObjectId :=
  (projection.paths.find? fun entry => entry.2 = path).map Prod.fst

theorem reverse_lookup_some (projection : PathProjection) (path : List Char) (oid : ObjectId)
    (found : projection.reverseLookup path = some oid) : (oid, path) ∈ projection.paths := by
  obtain ⟨entry, located, same⟩ := Option.map_eq_some_iff.mp found
  have matched : entry.2 = path := by simpa using List.find?_some located
  have member := List.mem_of_find?_eq_some located
  rw [← same, ← matched]
  exact member

theorem reverse_lookup_none (projection : PathProjection) (path : List Char)
    (missing : projection.reverseLookup path = none) (oid : ObjectId) :
    (oid, path) ∉ projection.paths := by
  intro member
  have unmatched := List.find?_eq_none.mp (Option.map_eq_none_iff.mp missing) (oid, path) member
  simp at unmatched

end PathProjection

structure PathContextManager where
  projections : FMap TagId PathProjection

namespace PathContextManager

def new : PathContextManager := { projections := ∅ }

def get (manager : PathContextManager) (context : TagId) : Option PathProjection :=
  manager.projections.lookup context

end PathContextManager

end Mimisbrunnr.Unix
