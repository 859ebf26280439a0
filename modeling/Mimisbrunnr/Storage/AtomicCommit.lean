import Mimisbrunnr.Storage.Superblock

/-!
# Commits of the root are atomic

A commit writes the superblock to three places one after the other. Wherever it
stops, each place holds the superblock of before, the one with the new root, or a
copy that is torn, and at most one is torn. Opening therefore finds one of the two
roots.
-/

namespace Mimisbrunnr.Storage.Superblock

set_option autoImplicit false

open Mimisbrunnr.Lib.ByteStore
open Mimisbrunnr.Lib.Layout

/-- The commits of the given roots, up to the first that fails. -/
def commitAll (crc : Crc) : List RootPointer → Superblock → Device →
    Except StorageError Unit × Superblock × Device
  | [], sb, d => (.ok (), sb, d)
  | root :: rest, sb, d =>
      match sb.commitRoot crc root d with
      | (.ok (), committed, after) => commitAll crc rest committed after
      | failed => failed

def lastRoot (crc : Crc) (roots : List RootPointer) : RootPointer :=
  (roots.getLastD RootPointer.zero).recomputeCrc crc

private theorem commit_all_stored (crc : Crc) (roots : List RootPointer) :
    ∀ (last : RootPointer) (sb reached : Superblock) (d after : Device), Stored crc sb d →
      sb.activeRootPointer = last.recomputeCrc crc →
      commitAll crc roots sb d = (.ok (), reached, after) →
      Stored crc reached after ∧
        reached.activeRootPointer = (roots.getLastD last).recomputeCrc crc := by
  induction roots with
  | nil =>
      intro last sb reached d after stored active ok
      cases ok
      exact ⟨stored, active⟩
  | cons root rest ih =>
      intro last sb reached d after stored active ok
      rw [commitAll] at ok
      split at ok
      · next committed middle done =>
          obtain ⟨same, kept, -, -⟩ :=
            commit_root_ok crc sb committed root d middle stored.room stored.magic done
          have here : committed.activeRootPointer = root.recomputeCrc crc := by
            rw [same]
            exact active_with_root crc sb root
          have later := ih root committed reached middle after kept here ok
          rw [List.getLastD_cons]
          exact later
      · next failed =>
          exact absurd ok (by
            intro ok
            exact failed reached after ok)

def copyWrites (bytes : List UInt8) (offsets : List Nat) : List (Nat × List UInt8) :=
  offsets.map fun offset => (offset, bytes)

def commitWrites (crc : Crc) (sb : Superblock) (new : RootPointer) (capacity : Nat) :
    List (Nat × List UInt8) :=
  copyWrites (sealed crc body (sb.withRoot crc new)) (copyOffsets capacity)

private theorem write_copies_written (bytes : List UInt8) (offsets : List Nat) :
    ∀ d after, writeCopies bytes offsets d = (.ok (), after) →
      after.bytes = ((copyWrites bytes offsets).foldl Device.written d).bytes := by
  induction offsets with
  | nil =>
      intro d after ok
      cases ok
      rfl
  | cons offset rest ih =>
      intro d after ok
      obtain ⟨⟨⟩, middle, written, ok⟩ := DeviceM.bind_ok _ _ _ _ _ ok
      have done := Device.write_at_ok d middle offset bytes written
      rw [ih middle after ok]
      apply written_bytes
      rw [done.2]
      rfl

theorem commit_root_written (crc : Crc) (sb committed : Superblock) (new : RootPointer)
    (d after : Device) (ok : sb.commitRoot crc new d = (.ok (), committed, after)) :
    after.bytes = ((commitWrites crc sb new d.capacity).foldl Device.written d).bytes := by
  have acknowledged : ((sb.withRoot crc new).writeAll crc d).1 = .ok () := congrArg Prod.fst ok
  have device : ((sb.withRoot crc new).writeAll crc d).2 = after :=
    congrArg (fun result => result.2.2) ok
  have written : (sb.withRoot crc new).writeAll crc d = (.ok (), after) :=
    Prod.ext acknowledged device
  obtain ⟨⟨⟩, middle, copies, synced⟩ := DeviceM.bind_ok _ _ _ _ _ written
  have settled := Device.sync_ok middle after synced
  have same : after.bytes = middle.bytes := by rw [settled]
  rw [same]
  exact write_copies_written _ _ d middle copies

def Rejected (crc : Crc) (bytes : List UInt8) : Prop :=
  (bodyOf body bytes).magicFull ≠ superblockMagicFull ∨ (brokenSeal crc body bytes).isSome = true

def Lost (crc : Crc) (offset : Nat) (d : Device) : Prop :=
  Rejected crc (read d.bytes offset blockSize)

def Torn (crc : Crc) (offset : Nat) (d : Device) : Prop :=
  (brokenSeal crc body (read d.bytes offset blockSize)).isSome = true

private theorem candidate_rejected (crc : Crc) (bytes : List UInt8)
    (rejected : Rejected crc bytes) :
    candidate crc bytes = none := by
  unfold candidate
  cases rejected with
  | inl magic => exact if_pos magic
  | inr broken =>
      by_cases magic : (bodyOf body bytes).magicFull = superblockMagicFull
      · exact (if_neg (not_not_intro magic)).trans (if_pos broken)
      · exact if_pos magic

theorem copy_lost (crc : Crc) (offset : Nat) (d : Device) (lost : Lost crc offset d) :
    copyAt crc d offset = none := by
  rw [copyAt, Device.readAt]
  by_cases outside : d.capacity < offset + blockSize
  · rw [if_pos outside]
  · rw [if_neg outside]
    exact candidate_rejected crc _ lost

/-- After a crash the first copies are new, at most one is torn, and the last ones are as
before. -/
theorem crashed_copies (crc : Crc) (bytes : List UInt8) (length : bytes.length = blockSize)
    (offsets : List Nat) :
    ∀ d after, (∀ offset ∈ offsets, offset + blockSize ≤ d.capacity) →
      offsets.Pairwise (fun a b => Apart a blockSize b blockSize) →
      Crashed (Torn crc) (copyWrites bytes offsets) d after →
      ∃ done torn rest, offsets = done ++ torn ++ rest ∧ torn.length ≤ 1 ∧
        (∀ offset ∈ done, after.readAt offset blockSize = .ok bytes) ∧
        (∀ offset ∈ torn, Torn crc offset after) ∧
        ∀ offset ∈ rest, AgreesOn offset blockSize d after := by
  induction offsets with
  | nil =>
      intro d after inside apart crash
      exact ⟨[], [], [], rfl, Nat.zero_le 1, by simp, by simp, by simp⟩
  | cons first rest ih =>
      intro d after inside apart crash
      rw [List.pairwise_cons] at apart
      cases crash with
      | stopped =>
          exact ⟨[], [], first :: rest, rfl, Nat.zero_le 1, by simp, by simp,
            fun offset _ => agrees_refl offset blockSize d⟩
      | torn _ _ _ _ changes torn =>
          dsimp only at changes torn
          rw [length] at changes
          refine ⟨[], [first], rest, rfl, Nat.le_refl 1, by simp, ?_, ?_⟩
          · intro offset member
            rw [List.mem_singleton.mp member]
            exact torn
          · intro offset member
            have far := apart.1 offset member
            apply agrees_of_apart changes
            unfold Apart at far ⊢
            omega
      | next _ _ _ _ crash =>
          have changes := written_changes d (first, bytes)
          dsimp only at changes
          rw [length] at changes
          obtain ⟨done, torn, kept, split, single, new, broken, old⟩ :=
            ih (d.written (first, bytes)) after
              (fun other member => inside other (List.mem_cons_of_mem _ member)) apart.2 crash
          refine ⟨first :: done, torn, kept, ?_, single, ?_, broken, ?_⟩
          · rw [split]
            rfl
          · intro offset member
            cases List.mem_cons.mp member with
            | inr later => exact new offset later
            | inl same =>
                subst same
                have kept := crashed_agrees (Torn crc) offset blockSize _ _ after crash (by
                  intro write listed
                  obtain ⟨other, present, rfl⟩ := List.mem_map.mp listed
                  dsimp only
                  rw [length]
                  exact apart.1 other present)
                have fits : offset + blockSize ≤ (d.written (offset, bytes)).capacity :=
                  inside offset List.mem_cons_self
                have stored := read_overwrite d.bytes offset bytes
                rw [length] at stored
                rw [read_at_agrees kept (Nat.le_refl _) (Nat.le_refl _),
                  Device.read_at_ok _ _ _ fits]
                exact congrArg Except.ok stored
          · intro offset member
            have listed : offset ∈ rest := by
              rw [split]
              exact List.mem_append_right _ member
            have far := apart.1 offset listed
            have before : AgreesOn offset blockSize d (d.written (first, bytes)) := by
              apply agrees_of_apart changes
              unfold Apart at far ⊢
              omega
            exact agrees_trans before (old offset member)

private theorem newer_among (best next : Option (UInt64 × UInt64 × Superblock))
    (found : UInt64 × UInt64 × Superblock) (chosen : newer best next = some found) :
    best = some found ∨ next = some found := by
  unfold newer at chosen
  split at chosen
  · exact .inl chosen
  · exact .inr chosen
  · split at chosen
    · exact .inr chosen
    · exact .inl chosen

private theorem newer_some (best next : Option (UInt64 × UInt64 × Superblock))
    (present : best.isSome = true ∨ next.isSome = true) : (newer best next).isSome = true := by
  unfold newer
  split
  · cases present with
    | inl present => exact present
    | inr absent => cases absent
  · cases present with
    | inl absent => cases absent
    | inr present => exact present
  · split
    · rfl
    · rfl

/-- The copy that opening takes is one of those it has seen. -/
theorem newest_among (crc : Crc) (d : Device) (offsets : List Nat)
    (found : UInt64 × UInt64 × Superblock) :
    ∀ best, offsets.foldl (fun best offset => newer best (copyAt crc d offset)) best =
        some found →
      best = some found ∨ ∃ offset ∈ offsets, copyAt crc d offset = some found := by
  induction offsets with
  | nil =>
      intro best chosen
      exact .inl chosen
  | cons offset rest ih =>
      intro best chosen
      cases ih _ chosen with
      | inl here =>
          cases newer_among _ _ _ here with
          | inl before => exact .inl before
          | inr this => exact .inr ⟨offset, List.mem_cons_self, this⟩
      | inr later =>
          obtain ⟨other, member, this⟩ := later
          exact .inr ⟨other, List.mem_cons_of_mem _ member, this⟩

theorem newest_some (crc : Crc) (d : Device) (offsets : List Nat) :
    ∀ best, (best.isSome = true ∨ ∃ offset ∈ offsets, (copyAt crc d offset).isSome = true) →
      (offsets.foldl (fun best offset => newer best (copyAt crc d offset)) best).isSome =
        true := by
  induction offsets with
  | nil =>
      intro best present
      cases present with
      | inl present => exact present
      | inr absent =>
          obtain ⟨offset, member, -⟩ := absent
          cases member
  | cons offset rest ih =>
      intro best present
      apply ih
      cases present with
      | inl before => exact .inl (newer_some _ _ (.inl before))
      | inr later =>
          obtain ⟨other, member, this⟩ := later
          cases List.mem_cons.mp member with
          | inl same =>
              subst same
              exact .inl (newer_some _ _ (.inr this))
          | inr member => exact .inr ⟨other, member, this⟩

/-- Opening succeeds with what the readable copies have in common, when there is one. -/
theorem open_among (crc : Crc) (d : Device) (room : blockSize * 3 ≤ d.capacity)
    (holds : Superblock → Prop)
    (each : ∀ offset ∈ copyOffsets d.capacity, ∀ found,
      copyAt crc d offset = some found → holds found.2.2)
    (present : ∃ offset ∈ copyOffsets d.capacity, (copyAt crc d offset).isSome = true) :
    ∃ sb, Superblock.open crc d = .ok sb ∧ holds sb := by
  have some := newest_some crc d (copyOffsets d.capacity) none (.inr present)
  obtain ⟨found, chosen⟩ := Option.isSome_iff_exists.mp some
  refine ⟨found.2.2, ?_, ?_⟩
  · rw [Superblock.open, if_neg (Nat.not_lt.mpr room), chosen]
  · cases newest_among crc d _ found none chosen with
    | inl absent => cases absent
    | inr among =>
        obtain ⟨offset, member, this⟩ := among
        exact each offset member found this

theorem copy_sealed (crc : Crc) (sb : Superblock) (magic : sb.magicFull = superblockMagicFull)
    (root : sb.activeRootPointer.verifyCrc crc = true) (d : Device) (offset : Nat)
    (copy : d.readAt offset blockSize = .ok (sealed crc body sb)) :
    copyAt crc d offset = some (sb.activeRootPointer.seq, sb.activeRootPointer.lsn, sb) := by
  rw [copyAt, copy]
  exact candidate_sealed crc sb magic root

theorem open_crashed (crc : Crc) (sb : Superblock) (new : RootPointer) (d after : Device)
    (stored : Stored crc sb d)
    (crash : Crashed (Torn crc) (sb.commitWrites crc new d.capacity) d after) :
    ∃ found, Superblock.open crc after = .ok found ∧ (found = sb ∨ found = sb.withRoot crc new) := by
  have room := stored.room
  obtain ⟨done, torn, rest, offsets, single, newCopies, tornCopies, oldCopies⟩ :=
    crashed_copies crc _ (length_copy crc (sb.withRoot crc new)) (copyOffsets d.capacity) d after
      (by
        intro offset member
        simp only [copyOffsets, List.mem_cons, List.not_mem_nil, or_false] at member
        simp only [blockSize] at room member ⊢
        omega)
      (copies_apart d.capacity room) crash
  have capacity : after.capacity = d.capacity := by
    have nowhere := crashed_agrees (Torn crc) 0 0 _ d after crash (by
      intro write _
      unfold Apart
      omega)
    exact nowhere.capacity
  have magic : (sb.withRoot crc new).magicFull = superblockMagicFull := by
    rw [magic_with_root]
    exact stored.magic
  have root : (sb.withRoot crc new).activeRootPointer.verifyCrc crc = true := by
    rw [active_with_root]
    exact RootPointer.verify_recompute crc new
  have isNew (offset : Nat) (member : offset ∈ done) :=
    copy_sealed crc _ magic root after offset (newCopies offset member)
  have isOld (offset : Nat) (member : offset ∈ rest) :
      copyAt crc after offset = some (sb.activeRootPointer.seq, sb.activeRootPointer.lsn, sb) := by
    apply copy_sealed crc sb stored.magic stored.root
    rw [read_at_agrees (oldCopies offset member) (Nat.le_refl _) (Nat.le_refl _)]
    apply stored.copies
    rw [offsets]
    exact List.mem_append_right _ member
  apply open_among crc after (by rw [capacity]; exact room)
  · intro offset member found this
    rw [capacity, offsets, List.mem_append, List.mem_append] at member
    rcases member with (new | torn) | old
    · rw [isNew offset new] at this
      cases this
      exact .inr rfl
    · rw [copy_lost crc offset after (.inr (tornCopies offset torn))] at this
      cases this
    · rw [isOld offset old] at this
      cases this
      exact .inl rfl
  · rw [capacity, offsets]
    -- Two of the three copies are not torn.
    have count := congrArg List.length offsets
    simp only [copyOffsets, List.length_append, List.length_cons, List.length_nil] at count
    cases done with
    | cons offset others =>
        refine ⟨offset, by simp, ?_⟩
        rw [isNew offset List.mem_cons_self]
        rfl
    | nil =>
        cases rest with
        | cons offset others =>
            refine ⟨offset, by simp, ?_⟩
            rw [isOld offset List.mem_cons_self]
            rfl
        | nil =>
            simp only [List.length_nil] at count
            omega

/-- One copy is as it was and each other one is as it was or lost. -/
structure Survives (crc : Crc) (d after : Device) : Prop where
  capacity : after.capacity = d.capacity
  intact : ∃ offset ∈ copyOffsets d.capacity, AgreesOn offset blockSize d after
  others : ∀ offset ∈ copyOffsets d.capacity,
    AgreesOn offset blockSize d after ∨ Lost crc offset after

private theorem open_survives (crc : Crc) (sb : Superblock) (d after : Device)
    (stored : Stored crc sb d)
    (survives : Survives crc d after) : Superblock.open crc after = .ok sb := by
  have intact (offset : Nat) (member : offset ∈ copyOffsets d.capacity)
      (agrees : AgreesOn offset blockSize d after) :
      copyAt crc after offset = some (sb.activeRootPointer.seq, sb.activeRootPointer.lsn, sb) := by
    apply copy_sealed crc sb stored.magic stored.root
    rw [read_at_agrees agrees (Nat.le_refl _) (Nat.le_refl _)]
    exact stored.copies offset member
  have found : ∃ found, Superblock.open crc after = .ok found ∧ found = sb := by
    apply open_among crc after (by rw [survives.capacity]; exact stored.room)
    · intro offset member found this
      rw [survives.capacity] at member
      cases survives.others offset member with
      | inl agrees =>
          rw [intact offset member agrees] at this
          cases this
          rfl
      | inr lost =>
          rw [copy_lost crc offset after lost] at this
          cases this
    · obtain ⟨offset, member, agrees⟩ := survives.intact
      refine ⟨offset, by rw [survives.capacity]; exact member, ?_⟩
      rw [intact offset member agrees]
      rfl
  obtain ⟨found, ok, same⟩ := found
  rw [ok, same]

/-- After `format` and any commits, a crash in the writes of the next commit leaves the last root
or the new one, and the last root is still found when two copies are lost. -/
theorem root_commits_atomically (crc : Crc) (args : Format) (roots : List RootPointer)
    (new : RootPointer) (blank sb : Superblock) (before formatted d : Device)
    (format : Superblock.format crc args before = (.ok blank, formatted))
    (commits : commitAll crc roots blank formatted = (.ok (), sb, d)) :
    (∀ committed after, sb.commitRoot crc new d = (.ok (), committed, after) →
      after.bytes = ((sb.commitWrites crc new d.capacity).foldl Device.written d).bytes) ∧
    (∀ crashed, Crashed (Torn crc) (sb.commitWrites crc new d.capacity) d crashed →
      ∃ found, Superblock.open crc crashed = .ok found ∧
        (found.activeRootPointer = lastRoot crc roots ∨
          found.activeRootPointer = new.recomputeCrc crc)) ∧
    ∀ damaged, Survives crc d damaged →
      ∃ found, Superblock.open crc damaged = .ok found ∧
        found.activeRootPointer = lastRoot crc roots := by
  obtain ⟨same, stored, -, -⟩ := format_ok crc args blank before formatted format
  have first : blank.activeRootPointer = RootPointer.zero.recomputeCrc crc := by
    rw [same]
    exact active_new_blank crc args _
  obtain ⟨stored, active⟩ :=
    commit_all_stored crc roots RootPointer.zero blank sb formatted d stored first commits
  refine ⟨?_, ?_, ?_⟩
  · intro committed after ok
    exact commit_root_written crc sb committed new d after ok
  · intro crashed crash
    obtain ⟨found, ok, which⟩ := open_crashed crc sb new d crashed stored crash
    refine ⟨found, ok, ?_⟩
    cases which with
    | inl old =>
        rw [old]
        exact .inl active
    | inr changed =>
        rw [changed]
        exact .inr (active_with_root crc sb new)
  · intro damaged survives
    exact ⟨sb, open_survives crc sb d damaged stored survives, active⟩

def blankDevice : Device :=
  { bytes := fun _ => 0, capacity := 12288, readOnly := false, faults := [] }

def blankFormat : Format :=
  { fsUuid := List.Vector.replicate 16 0
    nodeId := 1
    diskId := 0
    mediaType := .nvme
    tier := .hot
    bucketSizeLog2 := 20
    btreeNodeSizeLog2 := 18
    bootstrapBuckets := 64
    walOffset := 65536
    walSize := 1048576
    indexZone := { offset := 0, length := 0, flags := 0, pad := 0 }
    metadataZone := { offset := 0, length := 0, flags := 0, pad := 0 }
    blobZone := { offset := 0, length := 0, flags := 0, pad := 0 }
    formatVersion := 1 }

def numberedRoot (seq : UInt64) : RootPointer := { RootPointer.zero with seq := seq }

theorem first_root_commits_atomically :
    ∃ blank formatted sb d,
      format crc32c blankFormat blankDevice = (.ok blank, formatted) ∧
      commitAll crc32c [numberedRoot 1] blank formatted = (.ok (), sb, d) ∧
      (∀ crashed, Crashed (Torn crc32c) (sb.commitWrites crc32c (numberedRoot 2) d.capacity) d
          crashed →
        ∃ found, Superblock.open crc32c crashed = .ok found ∧
          (found.activeRootPointer = lastRoot crc32c [numberedRoot 1] ∨
            found.activeRootPointer = (numberedRoot 2).recomputeCrc crc32c)) ∧
      ∀ damaged, Survives crc32c d damaged →
        ∃ found, Superblock.open crc32c damaged = .ok found ∧
          found.activeRootPointer = lastRoot crc32c [numberedRoot 1] := by
  have healthy : blankDevice.Healthy := by
    constructor
    · rfl
    · intro fault member
      cases member
  obtain ⟨formatted, format, healthy⟩ :=
    format_healthy crc32c blankFormat blankDevice healthy (by decide)
  have capacity := (format_ok crc32c _ _ _ _ format).2.2.1
  obtain ⟨d, commit, -⟩ := commit_root_healthy crc32c
    (newBlank crc32c blankFormat (UInt64.ofNat blankDevice.capacity)) (numberedRoot 1) formatted
    healthy (by rw [capacity]; decide)
  have commits : commitAll crc32c [numberedRoot 1]
      (newBlank crc32c blankFormat (UInt64.ofNat blankDevice.capacity)) formatted =
      (.ok (), withRoot crc32c (newBlank crc32c blankFormat (UInt64.ofNat blankDevice.capacity))
        (numberedRoot 1), d) := by
    simp only [commitAll, commit]
  exact ⟨_, _, _, _, format, commits,
    (root_commits_atomically crc32c _ _ (numberedRoot 2) _ _ _ _ _ format commits).2⟩

end Mimisbrunnr.Storage.Superblock
