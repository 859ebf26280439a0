import Mimisbrunnr.Fuse.DirectoryPages
import Mimisbrunnr.Lib.Paths

/-!
# Files of a context

The parts of a projected path, looked up one after the other below the directory of its
context, lead to the file of its object. The pieces of the file that are read one after
the other are the content of the object.
-/

namespace Mimisbrunnr.Fuse

set_option autoImplicit false

open Mimisbrunnr.Lib
open Mimisbrunnr.Lib.FiniteMap
open Mimisbrunnr.Ontology
open Mimisbrunnr.Types
open Mimisbrunnr.Unix

def pathBelow (subPath : List Char) (parts : List (List Char)) : List Char :=
  parts.foldl candidatePath subPath

private theorem path_below_grows (parts : List (List Char)) :
    ∀ subPath : List Char, subPath ≠ [] → subPath <+: pathBelow subPath parts := by
  induction parts with
  | nil => exact fun subPath _ => List.prefix_refl subPath
  | cons part rest ih =>
      intro subPath present
      have longer : candidatePath subPath part = subPath ++ '/' :: part := if_neg present
      have some_char : candidatePath subPath part ≠ [] := by
        rw [longer]
        exact List.append_ne_nil_of_left_ne_nil present _
      exact (longer ▸ List.prefix_append subPath ('/' :: part)).trans (ih _ some_char)

private theorem path_below_deeper (subPath part : List Char) (rest : List (List Char))
    (present : subPath ≠ []) : subPath ++ ['/'] <+: pathBelow subPath (part :: rest) := by
  have longer : candidatePath subPath part = subPath ++ '/' :: part := if_neg present
  have some_char : candidatePath subPath part ≠ [] := by
    rw [longer]
    exact List.append_ne_nil_of_left_ne_nil present _
  have front : subPath ++ ['/'] <+: candidatePath subPath part := by
    rw [longer, List.append_cons subPath '/' part]
    exact List.prefix_append _ _
  exact front.trans (path_below_grows rest _ some_char)

private theorem path_below_intercalate (parts : List (List Char))
    (plain : ∀ part ∈ parts, part ≠ []) :
    ∀ first : List Char, first ≠ [] →
      pathBelow first parts = ['/'].intercalate (first :: parts) := by
  induction parts with
  | nil =>
      intro first _
      rw [List.intercalate_singleton]
      rfl
  | cons part rest ih =>
      intro first present
      have longer : candidatePath first part = first ++ '/' :: part := if_neg present
      have some_char : candidatePath first part ≠ [] := by
        rw [longer]
        exact List.append_ne_nil_of_left_ne_nil present _
      have deeper := ih (fun other member => plain other (List.mem_cons_of_mem _ member)) _ some_char
      rw [pathBelow, List.foldl_cons, ← pathBelow, deeper, longer]
      cases rest with
      | nil => simp
      | cons second more => simp [List.intercalate_cons_cons]

theorem path_below_split (path : List Char) (plain : [] ∉ path.splitOn '/') :
    pathBelow [] (path.splitOn '/') = path := by
  have whole : ['/'].intercalate (path.splitOn '/') = path := List.intercalate_splitOn '/'
  cases parts : path.splitOn '/' with
  | nil => exact absurd parts (List.splitOn_ne_nil '/' path)
  | cons first rest =>
      rw [parts] at plain whole
      have present : first ≠ [] := fun empty => plain (empty ▸ List.mem_cons_self)
      rw [← whole, pathBelow, List.foldl_cons, ← pathBelow, candidatePath, if_pos rfl]
      apply path_below_intercalate rest _ first present
      intro part member empty
      exact plain (empty ▸ List.mem_cons_of_mem _ member)

/-- Each part but the last leads to a directory, and the last one to the object. -/
theorem derive_along (m : Mirrors) (context : TagId) (projection : PathProjection)
    (projected : m.contextTrees.get context = some projection)
    (single : OneEntryPerPath projection) (oid : ObjectId) (parts : List (List Char)) :
    ∀ subPath : List Char, parts ≠ [] → (∀ part ∈ parts, part ≠ [] ∧ '/' ∉ part) →
      (oid, pathBelow subPath parts) ∈ projection.paths →
      parts.foldlM m.deriveChildKind (.ctxDir context subPath) =
        some (.ctxObject context oid) := by
  induction parts with
  | nil => exact fun _ some_part => absurd rfl some_part
  | cons part rest ih =>
      intro subPath _ plain mapped
      obtain ⟨present, noSeparator⟩ := plain part List.mem_cons_self
      have ends := candidate_ends_plain subPath part present noSeparator
      cases rest with
      | nil =>
          have step : m.deriveChildKind (.ctxDir context subPath) part =
              some (.ctxObject context oid) := by
            apply (derive_under_ctx_dir_iff m context subPath part _).mpr
            refine ⟨projection, projected, Or.inl ⟨oid, ?_, rfl⟩⟩
            cases found : projection.reverseLookup (candidatePath subPath part) with
            | none => exact absurd mapped (projection.reverse_lookup_none _ found oid)
            | some other =>
                have owner := projection.reverse_lookup_some _ other found
                exact congrArg some ((single _ owner _ mapped ends).1 rfl)
          rw [List.foldlM_cons, step]
          rfl
      | cons second more =>
          have some_char : candidatePath subPath part ≠ [] := by
            rw [candidate_path_eq]
            exact List.append_ne_nil_of_right_ne_nil _ present
          have below := path_below_deeper (candidatePath subPath part) second more some_char
          have step : m.deriveChildKind (.ctxDir context subPath) part =
              some (.ctxDir context (candidatePath subPath part)) := by
            apply (derive_under_ctx_dir_iff m context subPath part _).mpr
            refine ⟨projection, projected, Or.inr ⟨?_, ⟨_, mapped, ?_⟩, rfl⟩⟩
            · cases found : projection.reverseLookup (candidatePath subPath part) with
              | none => rfl
              | some other =>
                  have owner := projection.reverse_lookup_some _ other found
                  exact absurd (List.isPrefixOf_iff_prefix.mpr below)
                    (single _ owner _ mapped ends).2
            · exact List.isPrefixOf_iff_prefix.mpr below
          rw [List.foldlM_cons, step]
          exact ih _ (List.cons_ne_nil _ _)
            (fun other member => plain other (List.mem_cons_of_mem _ member)) mapped

namespace MimisbrunnrFs

open TagVfs

/-- A later state in which every kind is the derived one. -/
structure Steady (m : Mirrors) (fs later : MimisbrunnrFs) : Prop extends After m fs later where
  coherent : Coherent m later.vfs

theorem Steady.refl {m : Mirrors} {fs : MimisbrunnrFs} (mounted : Mounted m fs.vfs)
    (coherent : Coherent m fs.vfs) : Steady m fs fs := ⟨.refl mounted, coherent⟩

private theorem Steady.trans {m : Mirrors} {first second third : MimisbrunnrFs}
    (early : Steady m first second) (late : Steady m second third) : Steady m first third :=
  ⟨early.toAfter.trans late.toAfter, late.coherent⟩

variable (direntSize : List UInt8 → Nat)

theorem lookup_coherent (m : Mirrors) (inverse : m.NamesInverse) (fs : MimisbrunnrFs)
    (coherent : Coherent m fs.vfs) (parent : Nat) (name : List UInt8) :
    Coherent m (fs.lookup m parent name).2.vfs := by
  unfold lookup
  split
  · exact coherent
  · next chars _ =>
      have still := (lookup_spec m inverse fs.vfs coherent (fs.translate parent) chars).1
      split
      · next vfs answer =>
          rw [answer] at still
          exact still
      · next entry vfs answer =>
          rw [answer] at still
          dsimp only
          split
          · exact still
          · exact still

private theorem perform_steady (m : Mirrors) (inverse : m.NamesInverse) (clear : m.Unambiguous)
    (fs later : MimisbrunnrFs) (call : KernelCall) (steady : Steady m fs later) :
    Steady m fs (perform direntSize m later call) := by
  refine ⟨steady.toAfter.trans (perform_after direntSize m later steady.mounted call), ?_⟩
  cases call with
  | lookup parent name => exact lookup_coherent m inverse later steady.coherent parent name
  | readdir ino offset capacity =>
      exact (readdir_spec m inverse clear later.vfs steady.coherent (later.translate ino)).1
  | getattr ino => exact steady.coherent
  | read ino offset size => exact steady.coherent
  | write call => exact steady.coherent

theorem perform_all_steady (m : Mirrors) (inverse : m.NamesInverse) (clear : m.Unambiguous)
    (fs later : MimisbrunnrFs) (steady : Steady m fs later) (calls : List KernelCall) :
    Steady m fs (performAll direntSize m later calls) :=
  Runs.run_invariant (perform direntSize m) (Steady m fs) later steady
    (perform_steady direntSize m inverse clear fs) calls

private theorem new_with_root_coherent (m : Mirrors) (inverse : m.NamesInverse)
    (content : ObjectId → Option (List UInt8)) (root : MountRoot) :
    Coherent m (newWithRoot m TagVfs.new content root).vfs := by
  cases root with
  | full => exact coherent_new m
  | tagsOnly => exact coherent_new m
  | ctxOnly => exact coherent_new m
  | singleContext context =>
      change Coherent m (TagVfs.new.ctxRootInode m context).2
      unfold ctxRootInode
      split
      · exact coherent_new m
      · next projected =>
          split
          · exact coherent_new m
          · next definition known =>
              have named := (inverse definition.name context).mpr ⟨definition, known, rfl⟩
              refine (allocate_coherent m inverse TagVfs.new (coherent_new m) inodeCtxRoot _ rfl
                definition.name.toList (.ctxDir context []) ?_).1
              apply (derive_under_ctx_root_iff m definition.name.toList _).mpr
              refine ⟨context, ?_, ?_, rfl⟩
              · rw [String.ofList_toList]
                exact named
              · rw [← Finmap.lookup_isSome, Option.isSome_iff_ne_none]
                intro absent
                exact projected (Option.isNone_iff_eq_none.mpr absent)

def Stands (fs : MimisbrunnrFs) (ino : Nat) (kind : VfsEntryKind) : Prop :=
  ∃ entry, fs.vfs.entry (fs.translate ino) = some entry ∧ entry.kind = kind

theorem stands_later {m : Mirrors} {fs later : MimisbrunnrFs} (after : After m fs later)
    (ino : Nat) (kind : VfsEntryKind) (stands : Stands fs ino kind) : Stands later ino kind := by
  obtain ⟨entry, found, same⟩ := stands
  refine ⟨entry, ?_, same⟩
  rw [after.translate]
  exact after.grows.entries _ _ found

theorem translate_below (m : Mirrors) (fs : MimisbrunnrFs) (coherent : Coherent m fs.vfs)
    (entry : VfsEntry) (found : fs.vfs.entry entry.inode = some entry)
    (below : entry.kind ≠ .root) : fs.translate entry.inode = entry.inode := by
  rw [translate, if_neg]
  rintro ⟨top, -⟩
  rw [top, coherent.root] at found
  cases found
  exact below rfl

private theorem lookup_stands (m : Mirrors) (inverse : m.NamesInverse) (fs : MimisbrunnrFs)
    (mounted : Mounted m fs.vfs) (coherent : Coherent m fs.vfs) (parent : Nat) (name : List Char)
    (kind child : VfsEntryKind) (stands : Stands fs parent kind)
    (derived : m.deriveChildKind kind name = some child) :
    ∃ attr after, fs.lookup m parent (Text.encode name) = (.ok attr, after) ∧
      Steady m fs after ∧ Stands after attr.ino child := by
  obtain ⟨directory, here, same⟩ := stands
  obtain ⟨-, kinds, present⟩ := lookup_spec m inverse fs.vfs coherent (fs.translate parent) name
  rw [here, Option.bind_some, same, derived] at kinds
  obtain ⟨entry, answer, childKind⟩ := Option.map_eq_some_iff.mp kinds
  have found := present entry answer
  have attr : (fs.vfs.lookup m (fs.translate parent) name).2.getattr entry.inode =
      some (attrForKind entry.kind) := by
    rw [TagVfs.getattr, found]
    rfl
  have after := lookup_after m fs mounted parent (Text.encode name)
  have still := lookup_coherent m inverse fs coherent parent (Text.encode name)
  unfold lookup at after still ⊢
  rw [Text.decode_encode] at after still ⊢
  dsimp only at after still ⊢
  rw [← Prod.eta (fs.vfs.lookup m (fs.translate parent) name), answer] at after still ⊢
  dsimp only at after still ⊢
  rw [attr] at after still ⊢
  dsimp only at after still ⊢
  refine ⟨_, _, rfl, ⟨after, still⟩, entry, ?_, childKind⟩
  have plain := translate_below m { fs with vfs := (fs.vfs.lookup m (fs.translate parent) name).2 }
    still entry found (childKind ▸ derived_below m kind child name derived)
  exact (congrArg _ plain).trans found

/-- Names that derive a kind one after the other lead to an inode of it. -/
theorem lookup_path_stands (m : Mirrors) (inverse : m.NamesInverse) (clear : m.Unambiguous)
    (steps : List (List Char × List KernelCall)) :
    ∀ (start : Nat) (fs : MimisbrunnrFs) (kind last : VfsEntryKind), Mounted m fs.vfs →
      Coherent m fs.vfs → Stands fs start kind →
      (steps.map Prod.fst).foldlM m.deriveChildKind kind = some last →
      ∃ ino after, lookupPath direntSize m
          (steps.map fun step => (Text.encode step.1, step.2)) start fs = (.ok ino, after) ∧
        Steady m fs after ∧ Stands after ino last := by
  induction steps with
  | nil =>
      intro start fs kind last mounted coherent stands derived
      cases derived
      exact ⟨start, fs, rfl, .refl mounted coherent, stands⟩
  | cons step rest ih =>
      intro start fs kind last mounted coherent stands derived
      obtain ⟨name, between⟩ := step
      rw [List.map_cons, List.foldlM_cons] at derived
      obtain ⟨child, first, further⟩ := Option.bind_eq_some_iff.mp derived
      obtain ⟨attr, middle, answer, steady, reached⟩ := lookup_stands m inverse fs mounted coherent
        start name kind child stands first
      have moved := perform_all_steady direntSize m inverse clear middle middle
        (.refl steady.mounted steady.coherent) between
      obtain ⟨ino, after, walked, final, there⟩ := ih attr.ino
        (performAll direntSize m middle between) child last moved.mounted moved.coherent
        (stands_later moved.toAfter attr.ino child reached) further
      refine ⟨ino, after, ?_, (steady.trans moved).trans final, there⟩
      rw [List.map_cons, lookupPath]
      dsimp only
      rw [answer]
      exact walked

theorem object_of_stands (fs : MimisbrunnrFs) (ino : Nat) (context : TagId) (oid : ObjectId)
    (stands : Stands fs ino (.ctxObject context oid)) :
    fs.objectForInode (fs.translate ino) = some oid := by
  obtain ⟨entry, found, same⟩ := stands
  obtain ⟨number, kind, above⟩ := entry
  dsimp only at same
  subst same
  rw [objectForInode, found]

private theorem read_stands (fs : MimisbrunnrFs) (ino : Nat) (oid : ObjectId) (bytes : List UInt8)
    (object : fs.objectForInode (fs.translate ino) = some oid)
    (stored : fs.content oid = some bytes) (offset size : Nat) :
    fs.read ino offset size = .ok ((bytes.drop offset).take size) := by
  rw [read, object]
  dsimp only
  rw [stored]
  dsimp only
  congr 1
  by_cases inside : offset ≤ bytes.length
  · rw [Nat.min_eq_left inside, List.take_eq_take_iff, List.length_drop]
    omega
  · have nothing : bytes.drop offset = [] := List.drop_eq_nil_of_le (by omega)
    have past : min offset bytes.length = bytes.length := Nat.min_eq_right (by omega)
    rw [nothing, List.take_nil, past, List.drop_length, List.take_nil]

private theorem read_pieces_ok (m : Mirrors) (ino : Nat) (oid : ObjectId) (bytes : List UInt8)
    (context : TagId) (reads : List (Nat × List KernelCall)) :
    ∀ (offset : Nat) (fs : MimisbrunnrFs), Mounted m fs.vfs →
      Stands fs ino (.ctxObject context oid) → fs.content oid = some bytes →
      ∃ pieces, readPieces direntSize m ino reads offset fs = .ok pieces ∧
        pieces.flatten = (bytes.drop offset).take (reads.map Prod.fst).sum := by
  induction reads with
  | nil =>
      intro offset fs _ _ _
      exact ⟨[], rfl, rfl⟩
  | cons step rest ih =>
      intro offset fs mounted stands stored
      obtain ⟨size, between⟩ := step
      have object := object_of_stands fs ino context oid stands
      have piece := read_stands fs ino oid bytes object stored offset size
      have after := perform_all_after direntSize m fs mounted between
      obtain ⟨pieces, done, whole⟩ := ih (offset + ((bytes.drop offset).take size).length)
        (performAll direntSize m fs between) after.mounted
        (stands_later after ino _ stands) (by rw [after.content]; exact stored)
      refine ⟨(bytes.drop offset).take size :: pieces, ?_, ?_⟩
      · simp only [readPieces, piece, bind, Except.bind, done]
      · rw [List.flatten_cons, whole, List.map_cons, List.sum_cons, List.take_add, ← List.drop_drop]
        congr 2
        rw [List.length_take]
        by_cases enough : size ≤ (bytes.drop offset).length
        · rw [Nat.min_eq_left enough]
        · rw [Nat.min_eq_right (by omega), List.drop_length, List.drop_eq_nil_of_le (by omega)]

private theorem getattr_stands (fs : MimisbrunnrFs) (ino : Nat) (context : TagId) (oid : ObjectId)
    (bytes : List UInt8) (stands : Stands fs ino (.ctxObject context oid))
    (stored : fs.content oid = some bytes) :
    fs.getattr ino = .ok
      { ino := ino
        size := bytes.length
        blocks := (bytes.length + 511) / 512
        kind := .regularFile
        perm := 0o444
        nlink := 1 } := by
  have object := object_of_stands fs ino context oid stands
  obtain ⟨entry, found, same⟩ := stands
  have attr : fs.vfs.getattr (fs.translate ino) = some (.regularFile 0) := by
    rw [TagVfs.getattr, found, Option.map_some, same]
    rfl
  rw [getattr, attr]
  dsimp only
  rw [object]
  unfold makeFileAttr
  simp only [VfsAttr.regularFile, stored]

/-- In every session on unambiguous mirrors, the parts of a projected path lead from the
directory of its context to a file of the size of the object's content, and the pieces of the
file that are read one after the other are the content up to the sum of their sizes, whatever
is called between the lookups and between the pieces. -/
theorem projected_file_read (m : Mirrors) (inverse : m.NamesInverse) (clear : m.Unambiguous)
    (content : ObjectId → Option (List UInt8)) (root : MountRoot) (before : List KernelCall)
    (fs : MimisbrunnrFs)
    (session : fs = performAll direntSize m (newWithRoot m TagVfs.new content root) before)
    (start : Nat) (context : TagId) (here : Stands fs start (.ctxDir context []))
    (projection : PathProjection) (projected : m.contextTrees.get context = some projection)
    (oid : ObjectId) (path : List Char) (mapped : (oid, path) ∈ projection.paths)
    (plain : [] ∉ path.splitOn '/') (steps : List (List Char × List KernelCall))
    (parts : steps.map Prod.fst = path.splitOn '/') (bytes : List UInt8)
    (stored : content oid = some bytes) :
    ∃ ino after, lookupPath direntSize m
        (steps.map fun step => (Text.encode step.1, step.2)) start fs = (.ok ino, after) ∧
      ∀ later, let reached := performAll direntSize m after later
        (∃ attr, reached.getattr ino = .ok attr ∧ attr.ino = ino ∧ attr.kind = .regularFile ∧
          attr.size = bytes.length) ∧
        ∀ reads, ∃ pieces, readPieces direntSize m ino reads 0 reached = .ok pieces ∧
          pieces.flatten = bytes.take (reads.map Prod.fst).sum := by
  have mounted_start := new_with_root_mounted m content root
  have steady : Steady m (newWithRoot m TagVfs.new content root) fs := by
    rw [session]
    exact perform_all_steady direntSize m inverse clear _ _
      (.refl mounted_start (new_with_root_coherent m inverse content root)) before
  have same_content : (newWithRoot m TagVfs.new content root).content = content := by
    cases root with
    | full => rfl
    | tagsOnly => rfl
    | ctxOnly => rfl
    | singleContext other => rfl
  have some_context : context ∈ m.ontology.tags := by
    obtain ⟨entry, found, same⟩ := here
    have known := steady.coherent.known _ entry found
    rw [same] at known
    exact known
  have derived := derive_along m context projection projected
    (clear.paths context projection projected some_context) oid (path.splitOn '/') []
    (List.splitOn_ne_nil '/' path)
    (by
      intro part member
      refine ⟨?_, Paths.separator_not_in_part '/' path part member⟩
      rintro rfl
      exact plain member)
    (by rw [path_below_split path plain]; exact mapped)
  rw [← parts] at derived
  obtain ⟨ino, after, walked, moved, stands⟩ := lookup_path_stands direntSize m inverse clear steps
    start fs _ _ steady.mounted steady.coherent here derived
  refine ⟨ino, after, walked, ?_⟩
  intro later reached
  have last := perform_all_after direntSize m after moved.mounted later
  have there := stands_later last ino _ stands
  have kept : reached.content oid = some bytes := by
    rw [last.content, moved.content, steady.content, same_content]
    exact stored
  constructor
  · exact ⟨_, getattr_stands reached ino context oid bytes there kept, rfl, rfl, rfl⟩
  · intro reads
    obtain ⟨pieces, done, whole⟩ := read_pieces_ok direntSize m ino oid bytes context reads 0
      reached last.mounted there kept
    exact ⟨pieces, done, whole⟩

/-- The context is the root of the mount; its file is read in two pieces. -/
theorem projected_file_read_nested :
    ∃ ino after, lookupPath sampleDirentSize (sampleMirrors nestedPath)
        [(Text.encode ['x'], [.readdir inodeRoot 0 64]), (Text.encode ['y'], [])] inodeRoot
        (newWithRoot (sampleMirrors nestedPath) TagVfs.new (fun _ => some [1, 2, 3])
          (.singleContext 2)) = (.ok ino, after) ∧
      ∃ pieces, readPieces sampleDirentSize (sampleMirrors nestedPath) ino
          [(2, []), (2, [.getattr inodeRoot])] 0 after = .ok pieces ∧ pieces.flatten = [1, 2, 3] := by
  obtain ⟨ino, after, walked, reads⟩ := projected_file_read sampleDirentSize
    (sampleMirrors nestedPath) (sample_names_inverse nestedPath) nested_unambiguous
    (fun _ => some [1, 2, 3]) (.singleContext 2) [] _ rfl inodeRoot 2
    ⟨_, by rfl, by rfl⟩ nestedPath (by rfl)
    (ObjectId.fromParts 0 1) ['x', '/', 'y'] List.mem_cons_self (by decide +kernel)
    [(['x'], [.readdir inodeRoot 0 64]), (['y'], [])] (by decide +kernel) [1, 2, 3] rfl
  exact ⟨ino, after, walked, (reads []).2 [(2, []), (2, [.getattr inodeRoot])]⟩

end MimisbrunnrFs

end Mimisbrunnr.Fuse
