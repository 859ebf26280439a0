import Mimisbrunnr.Lib.Paths
import Mimisbrunnr.Lib.Text
import Mimisbrunnr.Unix.Projection

/-!
# Export plans

A plan has one entry for each object with a path. The check on relative paths is
made on their characters, the host takes their bytes. A part of two dots is the
same in both, so no path of a projection leaves the target directory.
-/

namespace Mimisbrunnr.Unix

set_option autoImplicit false

open Mimisbrunnr.Lib
open Mimisbrunnr.Types

abbrev HostPath := List UInt8

namespace HostPath

def separator : UInt8 := UInt8.ofNat '/'.toNat

def dot : UInt8 := UInt8.ofNat '.'.toNat

def isAbsolute (path : HostPath) : Bool := Paths.isAbsolute separator path

def join (root path : HostPath) : HostPath := Paths.join separator root path

def names (path : HostPath) : List HostPath := Paths.names separator dot path

def normal (path : HostPath) : List HostPath := Paths.normal separator dot path

def endsWithName (path : HostPath) : Bool := Paths.endsWithName separator dot path

end HostPath

inductive ExportAction where
  | createFile
  | createSymlink (target : HostPath)
  | createDirectory
deriving DecidableEq, Repr

structure ExportEntry where
  oid : ObjectId
  hostPath : HostPath
  action : ExportAction
deriving DecidableEq, Repr

/-- Objects without a path are passed over. -/
def Exporter.plan (projection : PathProjection) (oids : List ObjectId) : List ExportEntry :=
  oids.filterMap fun oid =>
    (projection.lookup oid).map fun rel =>
      { oid := oid, hostPath := Text.encode rel, action := .createFile }

theorem mem_plan (projection : PathProjection) (oids : List ObjectId) (entry : ExportEntry) :
    entry ∈ Exporter.plan projection oids ↔
      entry.oid ∈ oids ∧ entry.action = .createFile ∧
        ∃ rel, (entry.oid, rel) ∈ projection.paths ∧ entry.hostPath = Text.encode rel := by
  rw [Exporter.plan, List.mem_filterMap]
  constructor
  · intro planned
    obtain ⟨oid, listed, made⟩ := planned
    obtain ⟨rel, found, same⟩ := Option.map_eq_some_iff.mp made
    rw [← same]
    exact ⟨listed, rfl, rel, (projection.lookup_eq_some oid rel).mp found, rfl⟩
  · intro parts
    obtain ⟨listed, action, rel, mapped, path⟩ := parts
    refine ⟨entry.oid, listed, ?_⟩
    rw [(projection.lookup_eq_some entry.oid rel).mpr mapped, Option.map_some, ← path, ← action]

private theorem encode_dots : Text.encode ['.', '.'] = [HostPath.dot, HostPath.dot] := by
  decide +kernel

theorem valid_host_path (rel : List Char) (valid : validateRelativePath rel = .ok ()) :
    HostPath.isAbsolute (Text.encode rel) = false ∧
      [HostPath.dot, HostPath.dot] ∉ (Text.encode rel).splitOn HostPath.separator := by
  have ascii : Text.isAscii '/' = true := by decide
  rw [validateRelativePath] at valid
  split at valid
  · cases valid
  · next some_char =>
      split at valid
      · cases valid
      · next relative =>
          split at valid
          · cases valid
          · split at valid
            · cases valid
            · next plain =>
                constructor
                · cases rel with
                  | nil => exact absurd rfl some_char
                  | cons first rest =>
                      have different : first ≠ '/' := fun same => relative (by rw [same]; rfl)
                      have other := Text.byte_of_other '/' first ascii different
                      rw [HostPath.isAbsolute, Paths.isAbsolute, decide_eq_false_iff_not,
                        Text.encode_cons]
                      intro absolute
                      have some_byte : String.utf8EncodeChar first ≠ [] := by
                        intro empty
                        have length := String.length_utf8EncodeChar first
                        have positive := first.utf8Size_pos
                        rw [empty, List.length_nil] at length
                        omega
                      rw [List.head?_append_of_ne_nil _ some_byte] at absolute
                      exact other (List.mem_of_mem_head? absolute)
                · have cut : (Text.encode rel).splitOn HostPath.separator =
                      (rel.splitOn '/').map Text.encode := Text.split_encode '/' ascii rel
                  rw [cut]
                  intro member
                  obtain ⟨part, inside, same⟩ := List.mem_map.mp member
                  have dots := Text.encode_injective (same.trans encode_dots.symm)
                  rw [dots] at inside
                  exact plain inside

/-- No entry of a plan leaves the target directory. -/
theorem export_stays_in_target (projection : PathProjection) (oids : List ObjectId)
    (entry : ExportEntry) (target : HostPath) (planned : entry ∈ Exporter.plan projection oids) :
    HostPath.isAbsolute (target.join entry.hostPath) = HostPath.isAbsolute target ∧
      HostPath.normal target <+: HostPath.normal (target.join entry.hostPath) := by
  obtain ⟨-, -, rel, mapped, path⟩ := (mem_plan projection oids entry).mp planned
  have valid := valid_host_path rel (projection.valid _ mapped)
  rw [path]
  constructor
  · exact Paths.absolute_join _ target _ valid.1
  · rw [HostPath.normal, HostPath.normal, HostPath.join,
      Paths.normal_join _ _ target _ valid.1 valid.2]
    exact List.prefix_append _ _

/-- A projection of one object. -/
def onePathProjection : PathProjection where
  context := 7
  paths := [(ObjectId.fromParts 0 1, ['s', 'r', 'c', '/', '.', '/', 'a'])]
  distinct := List.nodup_singleton _
  valid := by
    intro entry member
    rw [List.mem_singleton.mp member]
    decide +kernel

theorem export_stays_in_target_one_path :
    let entry : ExportEntry :=
      { oid := ObjectId.fromParts 0 1
        hostPath := Text.encode ['s', 'r', 'c', '/', '.', '/', 'a']
        action := .createFile }
    let target : HostPath := Text.encode ['/', 'o', 'u', 't']
    HostPath.isAbsolute (target.join entry.hostPath) = HostPath.isAbsolute target ∧
      HostPath.normal target <+: HostPath.normal (target.join entry.hostPath) :=
  export_stays_in_target onePathProjection [ObjectId.fromParts 0 1] _ _ (by decide +kernel)

end Mimisbrunnr.Unix
