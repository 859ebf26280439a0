import Mathlib.Data.List.Lex
import Mimisbrunnr.Lib.MachineOrder
import Mimisbrunnr.Lib.Runs
import Mimisbrunnr.Unix.Export

/-!
# Executing export plans

Below the target directory there are directories, files and links, each at its
names. Creating a file needs a directory above it and must not meet one in its
place. The plan is executed in the order of the paths. A projection keeps no two
objects from the same path, from two spellings of it, or from paths of which one
leads into the other.
-/

namespace Mimisbrunnr.Unix

set_option autoImplicit false

open Mimisbrunnr.Lib
open Mimisbrunnr.Types

inductive Node where
  | directory
  | file (bytes : List UInt8)
  | symlink (target : HostPath)
deriving DecidableEq, Repr

abbrev Tree := List HostPath → Option Node

namespace Tree

def empty : Tree := fun place => if place = [] then some .directory else none

def set (tree : Tree) (place : List HostPath) (node : Node) : Tree :=
  fun other => if other = place then some node else tree other

def passable : Option Node → Bool
  | none => true
  | some .directory => true
  | some _ => false

/-- `create_dir_all`: all missing directories on the way. -/
def createDirAll (tree : Tree) (place : List HostPath) : Except UnixError Tree :=
  if place.inits.all fun front => passable (tree front) then
    .ok fun other =>
      if (tree other).isNone ∧ other <+: place then some .directory else tree other
  else .error (.io "not a directory")

/-- `fs::write`: the file is created, or replaced. -/
def write (tree : Tree) (path : HostPath) (bytes : List UInt8) : Except UnixError Tree :=
  let place := path.normal
  if ¬ path.endsWithName then .error (.io "is a directory")
  else if tree place.dropLast ≠ some .directory then .error (.io "no such directory")
  else
    match tree place with
    | some .directory => .error (.io "is a directory")
    | some (.symlink _) => .error (.io "link not followed")
    | _ => .ok (tree.set place (.file bytes))

def symlink (tree : Tree) (target : HostPath) (place : List HostPath) : Except UnixError Tree :=
  if (tree place).isSome then .error (.io "file exists") else .ok (tree.set place (.symlink target))

end Tree

/-- Paths are ordered by their components: the root, a leading dot, two dots, names. -/
def HostPath.orderKey (path : HostPath) : List (List UInt8) :=
  (if path.isAbsolute then [[]]
    else if (path.splitOn HostPath.separator).head? = some [HostPath.dot] then [[0]] else []) ++
    path.names.map fun name => if name = [HostPath.dot, HostPath.dot] then [1] else 2 :: name

def perform (content : ObjectId → Option (List UInt8)) (tree : Tree) (entry : ExportEntry) :
    Except UnixError Tree := do
  let place := entry.hostPath.normal
  match entry.action with
  | .createDirectory => tree.createDirAll place
  | .createFile =>
      let made ← tree.createDirAll place.dropLast
      match content entry.oid with
      | none => .error (.missingContent entry.oid.toU64)
      | some raw => made.write entry.hostPath raw
  | .createSymlink target =>
      let made ← tree.createDirAll place.dropLast
      made.symlink target place

def Exporter.sorted (plan : List ExportEntry) : List ExportEntry :=
  plan.mergeSort fun left right => left.hostPath.orderKey ≤ right.hostPath.orderKey

/-- The plan on a tree below the target; its paths are relative. -/
def Exporter.execute (plan : List ExportEntry) (content : ObjectId → Option (List UInt8))
    (tree : Tree) : Except UnixError Tree :=
  (Exporter.sorted plan).foldlM (perform content) tree

inductive ProjectionCall where
  | add (oid : ObjectId) (path : List Char)
  | remove (oid : ObjectId)
deriving DecidableEq, Repr

/-- A path that is refused changes nothing. -/
def PathProjection.call (projection : PathProjection) : ProjectionCall → PathProjection
  | .add oid path =>
      match projection.add oid path with
      | .ok added => added
      | .error _ => projection
  | .remove oid => projection.remove oid

def Separate (left right : HostPath) : Prop :=
  ¬ left.normal <+: right.normal ∧ ¬ right.normal <+: left.normal

instance (left right : HostPath) : Decidable (Separate left right) :=
  inferInstanceAs (Decidable (_ ∧ _))

/-- Objects are found again by their paths in any order of iteration, and each has its own file
after an export. -/
structure ExportsApart (projection : PathProjection) : Prop where
  reverse : ∀ iterated : PathProjection, iterated.paths.Perm projection.paths →
    ∀ oid path, projection.lookup oid = some path → iterated.reverseLookup path = some oid
  apart : ∀ oids : List ObjectId, oids.Nodup → (∀ oid ∈ oids, (projection.lookup oid).isSome) →
    (Exporter.plan projection oids).Pairwise fun left right =>
      Separate left.hostPath right.hostPath
  executed : ∀ (oids : List ObjectId) (content : ObjectId → Option (List UInt8)), oids.Nodup →
    (∀ oid ∈ oids, (projection.lookup oid).isSome) → (∀ oid ∈ oids, (content oid).isSome) →
      ∃ tree, Exporter.execute (Exporter.plan projection oids) content Tree.empty = .ok tree ∧
        ∀ place bytes, tree place = some (.file bytes) ↔
          ∃ entry ∈ Exporter.plan projection oids,
            entry.hostPath.normal = place ∧ content entry.oid = some bytes

/-- A path that is added ends with a name, and is apart from the paths of all other objects. -/
def AddsApart (projection : PathProjection) : ProjectionCall → Prop
  | .add oid path =>
      validateRelativePath path = .ok () →
        HostPath.endsWithName (Text.encode path) = true ∧
          ∀ entry ∈ projection.paths, entry.1 ≠ oid →
            Separate (Text.encode path) (Text.encode entry.2)
  | .remove _ => True

/-- The tree after some entries: a file for each, and the directories above them. -/
structure HoldsFiles (content : ObjectId → Option (List UInt8)) (tree : Tree)
    (done : List ExportEntry) : Prop where
  root : tree [] = some .directory
  files : ∀ place bytes, tree place = some (.file bytes) ↔
    ∃ entry ∈ done, entry.hostPath.normal = place ∧ content entry.oid = some bytes
  directories : ∀ place, tree place = some .directory →
    place = [] ∨ ∃ entry ∈ done, place <+: entry.hostPath.normal ∧ place ≠ entry.hostPath.normal
  links : ∀ place target, tree place ≠ some (.symlink target)

private theorem empty_holds (content : ObjectId → Option (List UInt8)) :
    HoldsFiles content Tree.empty [] := by
  constructor
  · rfl
  · intro place bytes
    rw [Tree.empty]
    split
    · simp
    · simp
  · intro place found
    rw [Tree.empty] at found
    split at found
    · next root => exact Or.inl root
    · cases found
  · intro place target found
    rw [Tree.empty] at found
    split at found
    · cases found
    · cases found

section

variable {content : ObjectId → Option (List UInt8)} {tree : Tree} {done : List ExportEntry}

theorem passable_of_separate (holds : HoldsFiles content tree done) (entry : ExportEntry)
    (separate : ∀ other ∈ done, Separate other.hostPath entry.hostPath)
    (front : List HostPath) (above : front <+: entry.hostPath.normal) :
    Tree.passable (tree front) = true := by
  cases found : tree front with
  | none => rfl
  | some node =>
      cases node with
      | directory => rfl
      | symlink target => exact absurd found (holds.links front target)
      | file bytes =>
          obtain ⟨other, listed, place, -⟩ := (holds.files front bytes).mp found
          rw [← place] at above
          exact absurd above (separate other listed).1

def withDirectories (tree : Tree) (place : List HostPath) : Tree := fun other =>
  if (tree other).isNone ∧ other <+: place then some .directory else tree other

private theorem create_dir_all_ok (place : List HostPath)
    (free : ∀ front, front <+: place → Tree.passable (tree front) = true) :
    tree.createDirAll place = .ok (withDirectories tree place) := by
  have all : (place.inits.all fun front => Tree.passable (tree front)) = true := by
    rw [List.all_eq_true]
    intro front above
    exact free front ((List.mem_inits _ _).mp above)
  rw [Tree.createDirAll, if_pos all]
  rfl

private theorem with_directories_some (place other : List HostPath) (node : Node)
    (different : node ≠ .directory) :
    withDirectories tree place other = some node ↔ tree other = some node := by
  rw [withDirectories]
  split
  · next added =>
      rw [Option.isNone_iff_eq_none.mp added.1]
      constructor
      · intro same
        exact absurd (Option.some.inj same).symm different
      · intro impossible
        cases impossible
  · exact Iff.rfl

private theorem with_directories_directory (place other : List HostPath)
    (found : withDirectories tree place other = some .directory) :
    tree other = some .directory ∨ other <+: place := by
  rw [withDirectories] at found
  split at found
  · next added => exact Or.inr added.2
  · exact Or.inl found

private theorem with_directories_here (place : List HostPath)
    (free : Tree.passable (tree place) = true) :
    withDirectories tree place place = some .directory := by
  rw [withDirectories]
  cases found : tree place with
  | none => exact if_pos ⟨rfl, List.prefix_refl _⟩
  | some node =>
      rw [found] at free
      cases node with
      | directory => exact if_neg fun added => Bool.false_ne_true added.1
      | file bytes => cases free
      | symlink target => cases free

private theorem write_new (made : Tree) (path : HostPath) (bytes : List UInt8)
    (named : path.endsWithName = true)
    (parent : made path.normal.dropLast = some .directory)
    (room : made path.normal ≠ some .directory)
    (plain : ∀ target, made path.normal ≠ some (.symlink target)) :
    made.write path bytes = .ok (made.set path.normal (.file bytes)) := by
  rw [Tree.write, if_neg (not_not.mpr named), if_neg (not_not.mpr parent)]
  split
  · next found => exact absurd found room
  · next target found => exact absurd found (plain target)
  · rfl

/-- A new file has a place of its own in the tree. -/
theorem perform_file (holds : HoldsFiles content tree done) (entry : ExportEntry)
    (bytes : List UInt8) (action : entry.action = .createFile)
    (stored : content entry.oid = some bytes) (named : entry.hostPath.endsWithName = true)
    (some_name : entry.hostPath.normal ≠ [])
    (separate : ∀ other ∈ done, Separate other.hostPath entry.hostPath) :
    ∃ after, perform content tree entry = .ok after ∧ HoldsFiles content after (entry :: done) := by
  have up : entry.hostPath.normal.dropLast <+: entry.hostPath.normal := List.dropLast_prefix _
  have free (front : List HostPath) (above : front <+: entry.hostPath.normal.dropLast) :=
    passable_of_separate holds entry separate front (above.trans up)
  have shorter : ¬ entry.hostPath.normal <+: entry.hostPath.normal.dropLast := by
    intro whole
    have length := whole.length_le
    have positive := List.length_pos_iff.mpr some_name
    rw [List.length_dropLast] at length
    omega
  have room : withDirectories tree entry.hostPath.normal.dropLast entry.hostPath.normal ≠
      some .directory := by
    intro found
    cases with_directories_directory _ _ found with
    | inr above => exact shorter above
    | inl before =>
        cases holds.directories _ before with
        | inl root => exact some_name root
        | inr above =>
            obtain ⟨other, listed, inside, -⟩ := above
            exact (separate other listed).2 inside
  have plain (target : HostPath) :
      withDirectories tree entry.hostPath.normal.dropLast entry.hostPath.normal ≠
        some (.symlink target) := by
    intro found
    rw [with_directories_some _ _ _ (by simp)] at found
    exact holds.links _ target found
  have wrote := write_new _ entry.hostPath bytes named
    (with_directories_here _ (free _ (List.prefix_refl _))) room plain
  refine ⟨(withDirectories tree entry.hostPath.normal.dropLast).set entry.hostPath.normal
    (.file bytes), ?_, ?_⟩
  · rw [perform, action]
    dsimp only
    rw [create_dir_all_ok _ free]
    change (match content entry.oid with
      | none => _
      | some raw => (withDirectories tree entry.hostPath.normal.dropLast).write entry.hostPath raw) = _
    rw [stored]
    exact wrote
  · constructor
    · rw [Tree.set, if_neg (Ne.symm some_name), withDirectories, holds.root]
      rfl
    · intro place raw
      rw [Tree.set]
      by_cases here : place = entry.hostPath.normal
      · rw [if_pos here, here]
        constructor
        · intro same
          cases same
          exact ⟨entry, List.mem_cons_self, rfl, stored⟩
        · intro found
          obtain ⟨other, listed, same, kept⟩ := found
          cases List.mem_cons.mp listed with
          | inl first =>
              rw [first, stored] at kept
              cases kept
              rfl
          | inr before =>
              have apart := (separate other before).1
              rw [same] at apart
              exact absurd (List.prefix_refl _) apart
      · rw [if_neg here, with_directories_some _ _ _ (by simp), holds.files]
        constructor
        · intro found
          obtain ⟨other, listed, parts⟩ := found
          exact ⟨other, List.mem_cons_of_mem _ listed, parts⟩
        · intro found
          obtain ⟨other, listed, same, kept⟩ := found
          cases List.mem_cons.mp listed with
          | inl first =>
              rw [first] at same
              exact absurd same.symm here
          | inr before => exact ⟨other, before, same, kept⟩
    · intro place found
      rw [Tree.set] at found
      split at found
      · cases found
      · cases with_directories_directory _ _ found with
        | inr above =>
            refine Or.inr ⟨entry, List.mem_cons_self, above.trans up, ?_⟩
            intro same
            rw [same] at above
            exact shorter above
        | inl before =>
            cases holds.directories place before with
            | inl root => exact Or.inl root
            | inr inside =>
                obtain ⟨other, listed, parts⟩ := inside
                exact Or.inr ⟨other, List.mem_cons_of_mem _ listed, parts⟩
    · intro place target found
      rw [Tree.set] at found
      split at found
      · cases found
      · rw [with_directories_some _ _ _ (by simp)] at found
        exact holds.links place target found

end

/-- A plan whose files are apart is executed in any order. -/
theorem perform_all (content : ObjectId → Option (List UInt8)) (plan : List ExportEntry)
    (action : ∀ entry ∈ plan, entry.action = .createFile)
    (stored : ∀ entry ∈ plan, (content entry.oid).isSome)
    (named : ∀ entry ∈ plan, entry.hostPath.endsWithName = true)
    (some_name : ∀ entry ∈ plan, entry.hostPath.normal ≠ []) :
    ∀ (tree : Tree) (done : List ExportEntry), HoldsFiles content tree done →
      (done ++ plan).Pairwise (fun left right => Separate left.hostPath right.hostPath) →
      ∃ after, plan.foldlM (perform content) tree = .ok after ∧
        HoldsFiles content after (plan.reverse ++ done) := by
  induction plan with
  | nil =>
      intro tree done holds _
      exact ⟨tree, rfl, holds⟩
  | cons entry plan ih =>
      intro tree done holds separate
      obtain ⟨bytes, kept⟩ := Option.isSome_iff_exists.mp (stored entry List.mem_cons_self)
      obtain ⟨-, -, across⟩ := List.pairwise_append.mp separate
      obtain ⟨middle, first, still⟩ := perform_file holds entry bytes
        (action entry List.mem_cons_self) kept (named entry List.mem_cons_self)
        (some_name entry List.mem_cons_self)
        fun other listed => across other listed entry List.mem_cons_self
      have moved : ((entry :: done) ++ plan).Pairwise fun left right =>
          Separate left.hostPath right.hostPath := by
        have same : List.Perm (done ++ entry :: plan) (entry :: done ++ plan) := List.perm_middle
        exact same.pairwise separate fun apart => ⟨apart.2, apart.1⟩
      obtain ⟨after, rest, final⟩ := ih
        (fun other listed => action other (List.mem_cons_of_mem _ listed))
        (fun other listed => stored other (List.mem_cons_of_mem _ listed))
        (fun other listed => named other (List.mem_cons_of_mem _ listed))
        (fun other listed => some_name other (List.mem_cons_of_mem _ listed))
        middle (entry :: done) still moved
      refine ⟨after, ?_, ?_⟩
      · rw [List.foldlM_cons, first]
        exact rest
      · rw [List.reverse_cons, List.append_assoc]
        exact final

private theorem normal_of_valid (rel : List Char) (valid : validateRelativePath rel = .ok ()) :
    HostPath.normal (Text.encode rel) = HostPath.names (Text.encode rel) := by
  have down := (valid_host_path rel valid).2
  have kept := Paths.settle_append HostPath.dot [] (HostPath.names (Text.encode rel))
    fun member => down (List.mem_filter.mp member).1
  exact kept

/-- The paths of a projection name files, and none is another one or leads into it. -/
structure PathsApart (paths : List (ObjectId × List Char)) : Prop where
  named : ∀ entry ∈ paths, HostPath.endsWithName (Text.encode entry.2) = true
  separate : paths.Pairwise fun left right =>
    Separate (Text.encode left.2) (Text.encode right.2)

theorem separate_of_ne (paths : List (ObjectId × List Char)) (apart : PathsApart paths)
    (left right : ObjectId × List Char) (first : left ∈ paths) (second : right ∈ paths)
    (different : left ≠ right) : Separate (Text.encode left.2) (Text.encode right.2) := by
  have : Std.Symm fun left right : ObjectId × List Char =>
      Separate (Text.encode left.2) (Text.encode right.2) := ⟨fun _ _ one => ⟨one.2, one.1⟩⟩
  exact apart.separate.forall first second different

private theorem reverse_of_apart (projection iterated : PathProjection)
    (apart : PathsApart projection.paths) (same : iterated.paths.Perm projection.paths)
    (oid : ObjectId) (path : List Char) (found : projection.lookup oid = some path) :
    iterated.reverseLookup path = some oid := by
  have mapped := (projection.lookup_eq_some oid path).mp found
  cases located : iterated.reverseLookup path with
  | none => exact absurd (same.mem_iff.mpr mapped) (iterated.reverse_lookup_none path located oid)
  | some other =>
      have owner := same.mem_iff.mp (iterated.reverse_lookup_some path other located)
      by_contra different
      have distinct : (other, path) ≠ (oid, path) := by
        intro equal
        exact different (congrArg (fun entry => some entry.1) equal)
      exact (separate_of_ne _ apart _ _ owner mapped distinct).1 (List.prefix_refl _)

theorem plan_apart (projection : PathProjection) (apart : PathsApart projection.paths)
    (oids : List ObjectId) (distinct : oids.Nodup) :
    (Exporter.plan projection oids).Pairwise fun left right =>
      Separate left.hostPath right.hostPath := by
  rw [Exporter.plan, List.pairwise_filterMap]
  apply distinct.imp
  intro first second different left planned right planned'
  obtain ⟨path, found, made⟩ := Option.map_eq_some_iff.mp planned
  obtain ⟨path', found', made'⟩ := Option.map_eq_some_iff.mp planned'
  rw [← made, ← made']
  apply separate_of_ne _ apart (first, path) (second, path')
  · exact (projection.lookup_eq_some first path).mp found
  · exact (projection.lookup_eq_some second path').mp found'
  · intro same
    exact different (congrArg Prod.fst same)

theorem executed_of_apart (projection : PathProjection) (apart : PathsApart projection.paths)
    (oids : List ObjectId) (content : ObjectId → Option (List UInt8)) (distinct : oids.Nodup)
    (stored : ∀ oid ∈ oids, (content oid).isSome) :
    ∃ tree, Exporter.execute (Exporter.plan projection oids) content Tree.empty = .ok tree ∧
      ∀ place bytes, tree place = some (.file bytes) ↔
        ∃ entry ∈ Exporter.plan projection oids,
          entry.hostPath.normal = place ∧ content entry.oid = some bytes := by
  have order : (Exporter.sorted (Exporter.plan projection oids)).Perm
      (Exporter.plan projection oids) := List.mergeSort_perm _ _
  have parts (entry : ExportEntry)
      (listed : entry ∈ Exporter.sorted (Exporter.plan projection oids)) :=
    (mem_plan projection oids entry).mp (order.mem_iff.mp listed)
  obtain ⟨tree, done, holds⟩ := perform_all content
    (Exporter.sorted (Exporter.plan projection oids))
    (fun entry listed => (parts entry listed).2.1)
    (fun entry listed => stored entry.oid (parts entry listed).1)
    (by
      intro entry listed
      obtain ⟨-, -, rel, mapped, path⟩ := parts entry listed
      rw [path]
      exact apart.named _ mapped)
    (by
      intro entry listed
      obtain ⟨-, -, rel, mapped, path⟩ := parts entry listed
      rw [path, normal_of_valid rel (projection.valid _ mapped)]
      exact Paths.names_of_ends_with_name _ _ _ (apart.named _ mapped))
    Tree.empty [] (empty_holds content)
    (order.symm.pairwise (plan_apart projection apart oids distinct) fun one => ⟨one.2, one.1⟩)
  refine ⟨tree, done, ?_⟩
  intro place bytes
  rw [holds.files, List.append_nil]
  constructor
  · intro found
    obtain ⟨entry, listed, rest⟩ := found
    exact ⟨entry, order.mem_iff.mp (List.mem_reverse.mp listed), rest⟩
  · intro found
    obtain ⟨entry, listed, rest⟩ := found
    exact ⟨entry, List.mem_reverse.mpr (order.mem_iff.mpr listed), rest⟩

private theorem perform_named (content : ObjectId → Option (List UInt8)) (tree after : Tree)
    (entry : ExportEntry) (action : entry.action = .createFile)
    (ok : perform content tree entry = .ok after) : entry.hostPath.endsWithName = true := by
  rw [perform, action] at ok
  dsimp only at ok
  cases made : tree.createDirAll entry.hostPath.normal.dropLast with
  | error err =>
      rw [made] at ok
      cases ok
  | ok middle =>
      rw [made] at ok
      change (match content entry.oid with
        | none => _
        | some raw => middle.write entry.hostPath raw) = _ at ok
      split at ok
      · cases ok
      · by_contra unnamed
        rw [Tree.write, if_pos unnamed] at ok
        cases ok

private theorem plan_one (projection : PathProjection) (entry : ObjectId × List Char)
    (mapped : entry ∈ projection.paths) (oids : List ObjectId) :
    Exporter.plan projection (entry.1 :: oids) =
      { oid := entry.1, hostPath := Text.encode entry.2, action := .createFile } ::
        Exporter.plan projection oids := by
  rw [Exporter.plan, List.filterMap_cons, (projection.lookup_eq_some entry.1 entry.2).mpr mapped]
  rfl

private theorem paths_apart_of_exports (projection : PathProjection)
    (exports : ExportsApart projection) :
    PathsApart projection.paths := by
  have found (entry : ObjectId × List Char) (mapped : entry ∈ projection.paths) :
      (projection.lookup entry.1).isSome := by
    rw [(projection.lookup_eq_some entry.1 entry.2).mpr mapped]
    rfl
  constructor
  · intro entry mapped
    obtain ⟨tree, done, -⟩ := exports.executed [entry.1] (fun _ => some []) (List.nodup_singleton _)
      (by
        intro oid listed
        rw [List.mem_singleton.mp listed]
        exact found entry mapped)
      (fun _ _ => rfl)
    rw [plan_one projection entry mapped, Exporter.execute, Exporter.sorted, Exporter.plan,
      List.filterMap_nil, List.mergeSort_singleton, List.foldlM_cons] at done
    cases performed : perform (fun _ => some []) Tree.empty
        { oid := entry.1, hostPath := Text.encode entry.2, action := .createFile } with
    | error err =>
        rw [performed] at done
        cases done
    | ok after => exact perform_named _ _ after _ rfl performed
  · apply (List.Nodup.of_map _ projection.distinct).pairwise_of_forall_ne
    intro left first right second different
    have ids : left.1 ≠ right.1 := by
      intro same
      exact different (List.inj_on_of_nodup_map projection.distinct first second same)
    have apart := exports.apart [left.1, right.1] (by simpa using ids) (by
      intro oid listed
      cases List.mem_pair.mp listed with
      | inl same =>
          rw [same]
          exact found left first
      | inr same =>
          rw [same]
          exact found right second)
    rw [plan_one projection left first, plan_one projection right second] at apart
    exact (List.pairwise_cons.mp apart).1 _ List.mem_cons_self

theorem exports_apart_iff (projection : PathProjection) :
    ExportsApart projection ↔ PathsApart projection.paths := by
  constructor
  · exact paths_apart_of_exports projection
  · intro apart
    constructor
    · intro iterated same oid path found
      exact reverse_of_apart projection iterated apart same oid path found
    · intro oids distinct _
      exact plan_apart projection apart oids distinct
    · intro oids content distinct _ stored
      exact executed_of_apart projection apart oids content distinct stored

private theorem call_add_valid (projection : PathProjection) (oid : ObjectId) (path : List Char)
    (valid : validateRelativePath path = .ok ()) :
    (projection.call (.add oid path)).paths =
      PathProjection.insertPath projection.paths oid path := by
  rw [PathProjection.call, PathProjection.add]
  split
  · next added made =>
      split at made
      · cases made
      · cases made
        rfl
  · next err refused =>
      split at refused
      · next other checked =>
          rw [valid] at checked
          cases checked
      · cases refused

private theorem call_add_refused (projection : PathProjection) (oid : ObjectId) (path : List Char)
    (refused : validateRelativePath path ≠ .ok ()) :
    projection.call (.add oid path) = projection := by
  rw [PathProjection.call, PathProjection.add]
  split
  · next added made =>
      split at made
      · cases made
      · next checked => exact absurd checked refused
  · rfl

theorem paths_apart_filter (paths : List (ObjectId × List Char)) (oid : ObjectId)
    (apart : PathsApart paths) : PathsApart (paths.filter (·.1 ≠ oid)) where
  named entry kept := apart.named entry (List.mem_filter.mp kept).1
  separate := apart.separate.sublist List.filter_sublist

private theorem paths_apart_insert_iff (paths : List (ObjectId × List Char)) (oid : ObjectId)
    (path : List Char) (apart : PathsApart paths) :
    PathsApart (PathProjection.insertPath paths oid path) ↔
      HostPath.endsWithName (Text.encode path) = true ∧
        ∀ entry ∈ paths, entry.1 ≠ oid → Separate (Text.encode path) (Text.encode entry.2) := by
  constructor
  · intro inserted
    obtain ⟨-, -, across⟩ := List.pairwise_append.mp inserted.separate
    constructor
    · exact inserted.named (oid, path)
        (List.mem_append_right _ (List.mem_singleton.mpr rfl))
    · intro entry listed other
      have kept : entry ∈ paths.filter (·.1 ≠ oid) :=
        List.mem_filter.mpr ⟨listed, decide_eq_true other⟩
      have one := across entry kept (oid, path) (List.mem_singleton.mpr rfl)
      exact ⟨one.2, one.1⟩
  · intro both
    have kept := paths_apart_filter paths oid apart
    constructor
    · intro entry listed
      cases List.mem_append.mp listed with
      | inl before => exact kept.named entry before
      | inr last =>
          rw [List.mem_singleton.mp last]
          exact both.1
    · apply List.pairwise_append.mpr
      refine ⟨kept.separate, List.pairwise_singleton _ _, ?_⟩
      intro entry before added last
      rw [List.mem_singleton.mp last]
      have parts := List.mem_filter.mp before
      have one := both.2 entry parts.1 (of_decide_eq_true parts.2)
      exact ⟨one.2, one.1⟩

private theorem call_apart_iff (projection : PathProjection) (call : ProjectionCall)
    (exports : ExportsApart projection) :
    ExportsApart (projection.call call) ↔ AddsApart projection call := by
  have apart := (exports_apart_iff projection).mp exports
  rw [exports_apart_iff]
  cases call with
  | remove oid => exact iff_of_true (paths_apart_filter projection.paths oid apart) trivial
  | add oid path =>
      by_cases valid : validateRelativePath path = .ok ()
      · rw [call_add_valid projection oid path valid,
          paths_apart_insert_iff projection.paths oid path apart]
        constructor
        · intro both _
          exact both
        · intro adds
          exact adds valid
      · rw [call_add_refused projection oid path valid]
        exact iff_of_true apart fun checked => absurd checked valid

private theorem new_exports_apart (context : TagId) : ExportsApart
    (PathProjection.new context) := by
  rw [exports_apart_iff]
  constructor
  · intro entry member
    cases member
  · exact List.Pairwise.nil

/-- In a run of calls the exported objects stay apart just when every path that is added names a
file apart from the paths that other objects have then. -/
theorem exports_apart_throughout_iff (context : TagId) (calls : List ProjectionCall) :
    Runs.Throughout PathProjection.call ExportsApart (PathProjection.new context) calls ↔
      Runs.Along PathProjection.call AddsApart (PathProjection.new context) calls := by
  rw [Runs.throughout_iff_along PathProjection.call (fun _ => True) (fun _ => True) ExportsApart
    AddsApart _ trivial (fun _ _ _ => trivial)
    (fun projection call _ _ _ exports => call_apart_iff projection call exports) calls
    (fun _ _ => trivial)]
  exact and_iff_right (new_exports_apart context)

/-- Two objects with the same path: one is not found again, and both are exported to one file. -/
theorem same_path_not_apart :
    let calls : List ProjectionCall :=
      [.add (ObjectId.fromParts 0 1) ['a'], .add (ObjectId.fromParts 0 2) ['a']]
    ¬ Runs.Throughout PathProjection.call ExportsApart (PathProjection.new 7) calls := by
  intro calls throughout
  have exports := throughout calls (List.prefix_refl _)
  have first := exports.reverse _ (List.Perm.refl _) (ObjectId.fromParts 0 1) ['a'] (by decide +kernel)
  have second := exports.reverse _ (List.Perm.refl _) (ObjectId.fromParts 0 2) ['a'] (by decide +kernel)
  have same := Option.some.inj (first.symm.trans second)
  revert same
  decide

end Mimisbrunnr.Unix
