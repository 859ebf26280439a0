import Mimisbrunnr.Index.ForwardRegionRoundTrip
import Mimisbrunnr.Index.KvRegionRoundTrip
import Mimisbrunnr.Index.TagRegionRoundTrip
import Mimisbrunnr.Storage.FailedRewrite

/-!
# Flushes of indices that fail

A flush fills slots from the first on and looks for the room of an item only when
the turn of that item has come. The directory is written last. After a flush that
failed it still leads to the slots of the old index, and what was written before
the failure lies over the old items.
-/

namespace Mimisbrunnr.Index

set_option autoImplicit false

open Mimisbrunnr.Lib.ByteStore
open Mimisbrunnr.Lib.FiniteMap
open Mimisbrunnr.Lib.SlotChains
open Mimisbrunnr.Storage
open Mimisbrunnr.Types

/-- What a flush returns when a write of the device fails. -/
def DeviceFailure : IndexError → Prop
  | .page .io => True
  | .storage err => ¬ Refusal err
  | .roaring text =>
      text = (KvBucketError.crcMismatch 0 0).text ∨ text = (KvDirectoryError.crcMismatch 0 0).text
  | _ => False

theorem refusal_of_storage (err : StorageError) (refused : ¬ DeviceFailure (.storage err)) :
    Refusal err := not_not.mp refused

namespace TagIndex

/-- The pages in the bitmap area. -/
def failedPages (roaring : Roaring) (cap : Nat) (index : TagIndex) : List (Link (List UInt8)) :=
  match checkSimple (toSorted index.stores) with
  | .error _ => []
  | .ok _ => writtenPages roaring cap 0 (toSorted index.stores)

private theorem closed_failed_pages (roaring : Roaring) (cap : Nat) (index : TagIndex) :
    Closed (index.failedPages roaring cap) := by
  unfold failedPages
  split
  · exact closed_nil
  · exact closed_written_pages roaring cap _ 0

theorem flush_failed (env : TagRegionEnv) (index : TagIndex) (dirOffset area cap : Nat)
    (d after : Device) (err : IndexError)
    (failed : index.flushToRegion env dirOffset area cap d = (.error err, after))
    (refused : ¬ DeviceFailure err) :
    (index.failedPages env.roaring cap).length ≤ cap ∧
      ChangesWithin area ((index.failedPages env.roaring cap).length * blockSize) d after ∧
      Laid (PageAt env.crc area after) 0 (index.failedPages env.roaring cap) := by
  have healthy : err ≠ .page .io := by
    intro same
    rw [same] at refused
    exact refused trivial
  have ran : checkSimple (toSorted index.stores) = .ok () →
      ∀ result, (∀ reason, result = .error reason → reason ≠ .page .io) →
        writeStores env.crc env.roaring area cap 0 (toSorted index.stores) d = (result, after) →
        (index.failedPages env.roaring cap).length ≤ cap ∧
          ChangesWithin area ((index.failedPages env.roaring cap).length * blockSize) d after ∧
          Laid (PageAt env.crc area after) 0 (index.failedPages env.roaring cap) := by
    intro checked result sound written
    obtain ⟨inside, changes, laid, -⟩ := stores_written env.crc env.roaring area cap _ 0 result d
      after (Nat.zero_le _) sound written
    rw [Nat.zero_add] at inside
    rw [Nat.zero_mul, Nat.add_zero] at changes
    simp only [failedPages, checked]
    exact ⟨inside, changes, laid⟩
  cases DeviceM.bind_error _ _ _ _ _ failed with
  | inl lifted =>
      obtain ⟨complex, unchanged⟩ := DeviceM.lift_error _ _ _ _ lifted
      rw [unchanged]
      simp only [failedPages, complex]
      exact ⟨Nat.zero_le _, changes_within_refl _ _ _, laid_nil 0⟩
  | inr behind =>
      obtain ⟨⟨⟩, same, lifted, failed⟩ := behind
      obtain ⟨checked, unchanged⟩ := DeviceM.lift_ok _ _ _ _ lifted
      subst unchanged
      cases DeviceM.bind_error _ _ _ _ _ failed with
      | inl stores =>
          apply ran checked (.error err) _ stores
          intro reason same
          cases same
          exact healthy
      | inr behind =>
          obtain ⟨⟨leaves, slots⟩, middle, stores, failed⟩ := behind
          cases DeviceM.bind_error _ _ _ _ _ failed with
          | inl directory =>
              obtain ⟨inner, stopped, same⟩ := DeviceM.map_error_failed _ _ _ _ _ directory
              rw [same] at refused
              have unchanged := table_refused env.crc dirOffset env.codec .tagDirectory leaves middle
                after inner stopped (refusal_of_storage inner refused)
              subst unchanged
              apply ran checked (.ok (leaves, slots)) _ stores
              intro reason same
              cases same
          | inr done =>
              obtain ⟨_, _, -, returned⟩ := done
              cases returned

/-- An index is loaded after a flush in its place has failed just when its stores are found in the
slots. -/
theorem failed_flush_iff (env : TagRegionEnv) (old new : TagIndex)
    (narrow : ∀ entry ∈ toSorted old.stores, entry.1 < 2 ^ 32) (dirOffset area cap pages : Nat)
    (aligned : blockSize ∣ area) (low : area + cap * blockSize ≤ 2 ^ 32 * blockSize)
    (apart : Apart dirOffset regionSize area (cap * blockSize)) (blank stored d after : Device)
    (err : IndexError)
    (flushed : old.flushToRegion env dirOffset area cap blank = (.ok pages, stored))
    (region : AgreesOn dirOffset regionSize stored d)
    (slots : AgreesOn area (cap * blockSize) stored d)
    (failed : new.flushToRegion env dirOffset area cap d = (.error err, after))
    (refused : ¬ DeviceFailure err) (fuel : Nat) (enough : cap < fuel) :
    loadFromRegion env fuel d dirOffset = some (.ok old) ∧
      (loadFromRegion env fuel after dirOffset = some (.ok old) ↔
        rereadStores env.roaring
          (overlay (new.failedPages env.roaring cap)
            (storePages env.roaring (toSorted old.stores)))
          (toSorted old.stores) = some (toSorted old.stores)) := by
  obtain ⟨checked, count, inside, middle, changes, laid, directoryChanges, back⟩ :=
    tag_flush_written env old narrow dirOffset area cap pages blank stored flushed
  obtain ⟨short, newChanges, newLaid⟩ := flush_failed env new dirOffset area cap d after err failed
    refused
  rw [count] at inside
  obtain ⟨oldLaid, overlaid, directory⟩ := (page_local env.crc area).over_stored _ _ dirOffset
    regionSize cap apart inside short laid directoryChanges region slots newChanges newLaid
  have oldFit := Nat.mul_le_mul_right blockSize inside
  have few := length_overlay_le (new.failedPages env.roaring cap)
    (storePages env.roaring (toSorted old.stores)) cap short inside
  have fewFit := Nat.mul_le_mul_right blockSize few
  constructor
  · apply (tag_index_loads_iff env old narrow dirOffset area aligned d (back d region) _ oldLaid
      (closed_store_pages _ _) (Nat.le_refl _) (by omega) fuel (by omega)).mpr
    exact reread_own_stores env.roaring _ (check_simple_ok _ checked)
  · exact tag_index_loads_iff env old narrow dirOffset area aligned after (back after directory) _
      overlaid (closed_overlay _ _ (closed_failed_pages _ _ _) (closed_store_pages _ _))
      (le_length_overlay _ _) (by omega) fuel (by omega)

end TagIndex

namespace KvIndex

/-- The bitmaps in the slots behind the bucket. -/
def failedBitmaps (roaring : Roaring) (index : KvIndex) : List (Finset Nat) :=
  let entryCount := index.sortedEntries.length
  let globalDepth := selectGlobalDepth entryCount
  if kvDirectoryMaxInlineDepth < globalDepth ∨
      slotsPerRegion < 1 + 2 ^ globalDepth + entryCount then []
  else fittingBitmaps roaring (index.sortedEntries.map Prod.snd)

private theorem buckets_failed (env : KvRegionEnv) (offset : Nat) (buckets : List KvBucketBlock) :
    ∀ slot err d after, writeKvBuckets env offset slot buckets d = (.error err, after) →
      err = .roaring (KvBucketError.crcMismatch 0 0).text := by
  induction buckets with
  | nil =>
      intro slot err d after failed
      cases failed
  | cons bucket rest ih =>
      intro slot err d after failed
      cases DeviceM.bind_error _ _ _ _ _ failed with
      | inl first =>
          obtain ⟨inner, stopped, same⟩ := DeviceM.map_error_failed _ _ _ _ _ first
          obtain ⟨fault, -, broken⟩ := DeviceM.map_error_failed _ _ _ _ _ stopped
          rw [same, broken]
      | inr behind =>
          obtain ⟨⟨⟩, middle, -, later⟩ := behind
          exact ih _ _ _ _ later

/-- Behind the pages only the device can fail. -/
theorem heads_failed (env : KvRegionEnv) (offset : Nat) (buckets : List KvBucketBlock)
    (d after : Device) (err : IndexError)
    (failed : (do
      writeKvBuckets env offset 1 buckets
      let blank ← DeviceM.lift ((KvDirectoryBlock.new (UInt8.ofNat 0)).mapError
        fun err => IndexError.roaring err.text)
      let directory := (List.range (2 ^ 0)).foldl
        (fun directory index =>
          directory.setEntry index (BlockRef.at_ (offset + (1 + index) * blockSize))) blank
      (directory.write env.crc offset).mapError fun err => .roaring err.text :
        DeviceM IndexError Unit) d = (.error err, after)) : DeviceFailure err := by
  cases DeviceM.bind_error _ _ _ _ _ failed with
  | inl first =>
      rw [buckets_failed env offset buckets _ _ _ _ first]
      exact Or.inl rfl
  | inr behind =>
      obtain ⟨⟨⟩, middle, -, failed⟩ := behind
      cases DeviceM.bind_error _ _ _ _ _ failed with
      | inl blank => cases blank
      | inr behind =>
          obtain ⟨blank, late, -, directory⟩ := behind
          obtain ⟨inner, stopped, same⟩ := DeviceM.map_error_failed _ _ _ _ _ directory
          obtain ⟨fault, -, broken⟩ := DeviceM.map_error_failed _ _ _ _ _ stopped
          rw [same, broken]
          exact Or.inr rfl

theorem flush_failed (env : KvRegionEnv) (index : KvIndex) (offset : Nat)
    (narrow : ∀ entry ∈ index.sortedEntries, entry.1.1 < 2 ^ 32) (d after : Device)
    (err : IndexError) (failed : index.flushToRegion env offset d = (.error err, after))
    (refused : ¬ DeviceFailure err) :
    (index.failedBitmaps env.roaring).length ≤ 62 ∧
      ChangesWithin (offset + 2 * blockSize)
        ((index.failedBitmaps env.roaring).length * blockSize) d after ∧
      Laid (BitmapAt env offset after) 2 (index.failedBitmaps env.roaring) := by
  unfold flushToRegion at failed
  dsimp only at failed
  unfold failedBitmaps
  dsimp only
  split at failed
  · next deep =>
      cases failed
      rw [if_pos (Or.inl deep)]
      exact ⟨Nat.zero_le _, changes_within_refl _ _ _, laid_nil 2⟩
  · next shallow =>
      split at failed
      · next full =>
          cases failed
          rw [if_pos (Or.inr full)]
          exact ⟨Nat.zero_le _, changes_within_refl _ _ _, laid_nil 2⟩
      · next fits =>
          obtain ⟨few, depth⟩ := region_holds_few index.sortedEntries.length fits
          have room : ¬ (kvDirectoryMaxInlineDepth < selectGlobalDepth index.sortedEntries.length ∨
              slotsPerRegion < 1 + 2 ^ selectGlobalDepth index.sortedEntries.length +
                index.sortedEntries.length) := not_or.mpr ⟨shallow, fits⟩
          rw [if_neg room]
          rw [depth] at failed
          have start : List.replicate (2 ^ 0) (KvBucketBlock.new (UInt8.ofNat 0)) =
              [KvBucketBlock.filled []] := by
            rw [KvBucketBlock.filled_nil]
            rfl
          rw [start] at failed
          cases DeviceM.bind_error _ _ _ _ _ failed with
          | inl pages =>
              have healthy : ∀ reason, (Except.error err : Except IndexError (List KvBucketBlock)) =
                  .error reason → reason ≠ .page .io := by
                intro reason same io
                cases same
                rw [io] at refused
                exact refused trivial
              obtain ⟨changes, laid, -⟩ := kv_pages_written env offset index.sortedEntries narrow
                (sorted_keys_nodup index) 2 [] (.error err) d after
                (by rw [kvBucketMaxEntries, List.length_nil]; omega)
                (fun entry member => absurd member List.not_mem_nil) healthy pages
              have short := (List.takeWhile_sublist (fun bitmap => decide
                ((env.roaring.serialise bitmap).length ≤ tagBitmapPageMaxBytes))
                (l := index.sortedEntries.map Prod.snd)).length_le
              rw [List.length_map] at short
              exact ⟨Nat.le_trans short few, changes, laid⟩
          | inr behind =>
              obtain ⟨buckets, middle, -, failed⟩ := behind
              exact absurd (heads_failed env offset buckets middle after err failed) refused

/-- An index is loaded after a flush in its place has failed just when the bitmaps that were
written agree with its own, as far as both go. -/
theorem failed_flush_iff (env : KvRegionEnv) (old new : KvIndex) (offset : Nat)
    (narrow : ∀ entry ∈ old.sortedEntries, entry.1.1 < 2 ^ 32)
    (narrowNew : ∀ entry ∈ new.sortedEntries, entry.1.1 < 2 ^ 32) (aligned : blockSize ∣ offset)
    (low : offset + regionSize ≤ 2 ^ 32 * blockSize) (blank stored d after : Device)
    (err : IndexError) (flushed : old.flushToRegion env offset blank = (.ok (), stored))
    (region : AgreesOn offset regionSize stored d)
    (failed : new.flushToRegion env offset d = (.error err, after))
    (refused : ¬ DeviceFailure err) :
    loadFromRegion env d offset = .ok old ∧
      (loadFromRegion env after offset = .ok old ↔
        new.failedBitmaps env.roaring <+: old.sortedEntries.map Prod.snd ∨
          old.sortedEntries.map Prod.snd <+: new.failedBitmaps env.roaring) := by
  obtain ⟨few, changes, laid, heads⟩ := kv_flush_written env old offset narrow blank stored flushed
  obtain ⟨short, newChanges, newLaid⟩ := flush_failed env new offset narrowNew d after err failed
    refused
  have size : regionSize = 64 * blockSize := rfl
  have oldFit := Nat.mul_le_mul_right blockSize few
  have newFit := Nat.mul_le_mul_right blockSize short
  have oldLaid : Laid (BitmapAt env offset d) 2 (old.sortedEntries.map Prod.snd) := by
    apply (bitmap_local env offset).agree 2 _ laid
    rw [List.length_map]
    exact agrees_mono region (Nat.le_add_right _ _) (by omega)
  have overlaid := (bitmap_local env offset).overlaid 2 _ _ oldLaid newLaid newChanges
  have headsKept : AgreesOn offset (2 * blockSize) stored after := by
    apply agrees_trans (agrees_mono region (Nat.le_refl _) (by omega))
    apply agrees_of_apart newChanges
    unfold Apart
    omega
  have enough : ((overlay (new.failedBitmaps env.roaring) (old.sortedEntries.map Prod.snd)).take
      (old.sortedEntries.map Prod.snd).length).length = old.sortedEntries.length := by
    have long := le_length_overlay (new.failedBitmaps env.roaring)
      (old.sortedEntries.map Prod.snd)
    rw [List.length_take, Nat.min_eq_left long, List.length_map]
  constructor
  · exact (kv_index_loads_iff env old offset narrow aligned low few d
      (heads d (agrees_mono region (Nat.le_refl _) (by omega))) _ (List.length_map _) oldLaid).mpr
      rfl
  · apply Iff.trans (kv_index_loads_iff env old offset narrow aligned low few after
      (heads after headsKept) _ enough (laid_take 2 _ _ overlaid))
    exact take_overlay_iff _ _

end KvIndex

namespace ForwardIndex

theorem flush_failed (env : ForwardRegionEnv) (index : ForwardIndex) (dirOffset area cap : Nat)
    (d after : Device) (err : IndexError)
    (failed : index.flushToRegion env dirOffset area cap d = (.error err, after))
    (refused : ¬ DeviceFailure err) :
    (writtenRegions env.hash cap 0 (toSorted index.entries)).length ≤ cap ∧
      ChangesWithin area
        ((writtenRegions env.hash cap 0 (toSorted index.entries)).length * regionSize) d after ∧
      Laid (RegionAt area after) 0 (writtenRegions env.hash cap 0 (toSorted index.entries)) := by
  have ran : ∀ result, (∀ reason, result = .error reason →
        ∀ inner, reason = .storage inner → Refusal inner) →
      writeLeaves env.hash area cap 0 (toSorted index.entries) d = (result, after) →
      (writtenRegions env.hash cap 0 (toSorted index.entries)).length ≤ cap ∧
        ChangesWithin area
          ((writtenRegions env.hash cap 0 (toSorted index.entries)).length * regionSize) d after ∧
        Laid (RegionAt area after) 0 (writtenRegions env.hash cap 0 (toSorted index.entries)) := by
    intro result sound written
    obtain ⟨inside, changes, laid, -⟩ := objects_written env.hash area cap _ 0 result d after
      (Nat.zero_le _) sound written
    rw [Nat.zero_add] at inside
    rw [Nat.zero_mul, Nat.add_zero] at changes
    exact ⟨inside, changes, laid⟩
  cases DeviceM.bind_error _ _ _ _ _ failed with
  | inl leaves =>
      apply ran (.error err) _ leaves
      intro reason same inner storage
      cases same
      rw [storage] at refused
      exact refusal_of_storage inner refused
  | inr behind =>
      obtain ⟨⟨leaves, slots⟩, middle, objects, failed⟩ := behind
      cases DeviceM.bind_error _ _ _ _ _ failed with
      | inl directory =>
          obtain ⟨inner, stopped, same⟩ := DeviceM.map_error_failed _ _ _ _ _ directory
          rw [same] at refused
          have unchanged := table_refused env.crc dirOffset env.codec .forward leaves middle after
            inner stopped (refusal_of_storage inner refused)
          subst unchanged
          apply ran (.ok (leaves, slots)) _ objects
          intro reason same
          cases same
      | inr done =>
          obtain ⟨_, _, -, returned⟩ := done
          cases returned

/-- An index is loaded after a flush in its place has failed just when its objects are found in
the slots. -/
theorem failed_flush_iff (env : ForwardRegionEnv) (old new : ForwardIndex)
    (narrow : ∀ object ∈ toSorted old.entries, ∀ entry ∈ object.2, assertionTag entry.1 < 2 ^ 32)
    (dirOffset area cap regions : Nat) (aligned : blockSize ∣ area)
    (low : area + cap * regionSize ≤ 2 ^ 32 * blockSize)
    (apart : Apart dirOffset regionSize area (cap * regionSize)) (blank stored d after : Device)
    (err : IndexError)
    (flushed : old.flushToRegion env dirOffset area cap blank = (.ok regions, stored))
    (region : AgreesOn dirOffset regionSize stored d)
    (slots : AgreesOn area (cap * regionSize) stored d)
    (failed : new.flushToRegion env dirOffset area cap d = (.error err, after))
    (refused : ¬ DeviceFailure err) :
    loadFromRegion env d dirOffset = .ok old.stored ∧
      (loadFromRegion env after dirOffset = .ok old.stored ↔
        rereadObjects env.hash
          (overlay (writtenRegions env.hash cap 0 (toSorted new.entries))
            (objectRegions env.hash (toSorted old.entries)))
          (toSorted old.entries) = some old.storedObjects) := by
  obtain ⟨bounded, count, inside, middle, changes, laid, directoryChanges, back⟩ :=
    forward_flush_written env old dirOffset area cap regions blank stored flushed
  obtain ⟨short, newChanges, newLaid⟩ := flush_failed env new dirOffset area cap d after err failed
    refused
  rw [count] at inside
  obtain ⟨oldLaid, overlaid, directory⟩ := (region_local area).over_stored _ _ dirOffset
    regionSize cap apart inside short laid directoryChanges region slots newChanges newLaid
  have oldFit := Nat.mul_le_mul_right regionSize inside
  have few := length_overlay_le (writtenRegions env.hash cap 0 (toSorted new.entries))
    (objectRegions env.hash (toSorted old.entries)) cap short inside
  have fewFit := Nat.mul_le_mul_right regionSize few
  constructor
  · apply (forward_index_loads_iff env old bounded dirOffset area aligned d (back d region) _
      oldLaid (closed_object_regions _ _) (Nat.le_refl _) (by omega)).mpr
    exact reread_own_objects env.hash _ narrow
  · exact forward_index_loads_iff env old bounded dirOffset area aligned after
      (back after directory) _ overlaid
      (closed_overlay _ _ (closed_written_regions _ _ _ _) (closed_object_regions _ _))
      (le_length_overlay _ _) (by omega)

end ForwardIndex

inductive IndexKind where
  | tag
  | kv
  | forward
deriving DecidableEq, Repr

/-- The region of the directory and the slots of the area behind it. An equality index has no
area. -/
structure IndexPlace where
  region : Nat
  area : Nat
  cap : Nat

structure IndexEnv where
  crc : Crc
  roaring : Roaring
  hash : ValueHash
  tagCbor : Cbor (List (TagIndexKey × TagIndexValue))
  forwardCbor : Cbor (List (ForwardIndexKey × List UInt8))

namespace IndexEnv

def tag (env : IndexEnv) : TagRegionEnv := { env with cbor := env.tagCbor }

def kv (env : IndexEnv) : KvRegionEnv := { env with }

def forward (env : IndexEnv) : ForwardRegionEnv := { env with cbor := env.forwardCbor }

end IndexEnv

namespace IndexKind

def InMemory : IndexKind → Type
  | .tag => TagIndex
  | .kv => KvIndex
  | .forward => ForwardIndex

def flush (env : IndexEnv) (place : IndexPlace) :
    (kind : IndexKind) → kind.InMemory → DeviceM IndexError Unit
  | .tag, index => do
      let _ ← TagIndex.flushToRegion env.tag index place.region place.area place.cap
      pure ()
  | .kv, index => KvIndex.flushToRegion env.kv index place.region
  | .forward, index => do
      let _ ← ForwardIndex.flushToRegion env.forward index place.region place.area place.cap
      pure ()

/-- Only the walk through the chains of a tag index needs fuel. -/
def load (env : IndexEnv) (place : IndexPlace) (fuel : Nat) (d : Device) :
    (kind : IndexKind) → Option (Except IndexError kind.InMemory)
  | .tag => TagIndex.loadFromRegion env.tag fuel d place.region
  | .kv => some (KvIndex.loadFromRegion env.kv d place.region)
  | .forward => some (ForwardIndex.loadFromRegion env.forward d place.region)

/-- What is left of an index on the device. -/
def stored : (kind : IndexKind) → kind.InMemory → kind.InMemory
  | .tag, index => index
  | .kv, index => index
  | .forward, index => ForwardIndex.stored index

/-- The ids are numbers of 32 bits. -/
def Narrow : (kind : IndexKind) → kind.InMemory → Prop
  | .tag, index => ∀ entry ∈ toSorted (TagIndex.stores index), entry.1 < 2 ^ 32
  | .kv, index => ∀ entry ∈ KvIndex.sortedEntries index, entry.1.1 < 2 ^ 32
  | .forward, index => ∀ object ∈ toSorted (ForwardIndex.entries index), ∀ entry ∈ object.2,
      assertionTag entry.1 < 2 ^ 32

def slotSize : IndexKind → Nat
  | .tag => blockSize
  | .kv => 0
  | .forward => regionSize

/-- A flush of the new index that fails does no harm to the old one: with what it has written in
front of the item that was refused laid over the old slots, the old entries are found again. -/
def Harmless (env : IndexEnv) (cap : Nat) : (kind : IndexKind) → kind.InMemory → kind.InMemory → Prop
  | .tag, old, new =>
      let stores := toSorted (TagIndex.stores old)
      rereadStores env.roaring
        (overlay (TagIndex.failedPages env.roaring cap new) (storePages env.roaring stores))
        stores = some stores
  | .kv, old, new =>
      let bitmaps := (KvIndex.sortedEntries old).map Prod.snd
      let written := KvIndex.failedBitmaps env.roaring new
      written <+: bitmaps ∨ bitmaps <+: written
  | .forward, old, new =>
      let objects := toSorted (ForwardIndex.entries old)
      rereadObjects env.hash
        (overlay (writtenRegions env.hash cap 0 (toSorted (ForwardIndex.entries new)))
          (objectRegions env.hash objects))
        objects = some (ForwardIndex.storedObjects old)

end IndexKind

/-- Block addresses reach both parts of the place, and the parts do not overlap. -/
structure IndexPlace.Sound (kind : IndexKind) (place : IndexPlace) : Prop where
  region_aligned : blockSize ∣ place.region
  region_low : place.region + regionSize ≤ 2 ^ 32 * blockSize
  area_aligned : blockSize ∣ place.area
  area_low : place.area + place.cap * kind.slotSize ≤ 2 ^ 32 * blockSize
  apart : Apart place.region regionSize place.area (place.cap * kind.slotSize)

theorem flush_units {α : Type} (program : DeviceM IndexError α) (d after : Device)
    (ok : (program >>= fun _ => pure ()) d = (.ok (), after)) :
    ∃ number, program d = (.ok number, after) := by
  obtain ⟨number, last, written, ok⟩ := DeviceM.bind_ok _ _ _ _ _ ok
  obtain ⟨-, same⟩ := DeviceM.pure_ok _ _ _ _ ok
  subst same
  exact ⟨number, written⟩

theorem flush_errors {α : Type} (program : DeviceM IndexError α) (d after : Device)
    (err : IndexError) (failed : (program >>= fun _ => pure ()) d = (.error err, after)) :
    program d = (.error err, after) := by
  cases DeviceM.bind_error _ _ _ _ _ failed with
  | inl failed => exact failed
  | inr done =>
      obtain ⟨_, _, -, returned⟩ := done
      cases returned

theorem tag_flush_units (env : IndexEnv) (place : IndexPlace) (index : TagIndex)
    (d after : Device) (ok : IndexKind.tag.flush env place index d = (.ok (), after)) :
    ∃ pages, index.flushToRegion env.tag place.region place.area place.cap d =
      (.ok pages, after) := flush_units _ _ _ ok

theorem tag_flush_errors (env : IndexEnv) (place : IndexPlace) (index : TagIndex)
    (d after : Device) (err : IndexError)
    (failed : IndexKind.tag.flush env place index d = (.error err, after)) :
    index.flushToRegion env.tag place.region place.area place.cap d = (.error err, after) :=
  flush_errors _ _ _ _ failed

/-- A stored index is loaded, and it is loaded after a flush of a new one in its place has failed
just when that flush does it no harm. -/
theorem failed_flush_keeps_index_iff (env : IndexEnv) (kind : IndexKind) (place : IndexPlace)
    (sound : place.Sound kind) (old new : kind.InMemory) (narrow : kind.Narrow old)
    (narrowNew : kind.Narrow new) (blank stored d after : Device) (err : IndexError)
    (flushed : kind.flush env place old blank = (.ok (), stored))
    (region : AgreesOn place.region regionSize stored d)
    (slots : AgreesOn place.area (place.cap * kind.slotSize) stored d)
    (failed : kind.flush env place new d = (.error err, after))
    (refused : ¬ DeviceFailure err) (fuel : Nat) (enough : place.cap < fuel) :
    kind.load env place fuel d = some (.ok (kind.stored old)) ∧
      (kind.load env place fuel after = some (.ok (kind.stored old)) ↔
        kind.Harmless env place.cap old new) := by
  cases kind with
  | tag =>
      obtain ⟨pages, written⟩ := tag_flush_units env place old blank stored flushed
      exact TagIndex.failed_flush_iff env.tag old new narrow place.region place.area place.cap
        pages sound.area_aligned sound.area_low sound.apart blank stored d after err written region
        slots (tag_flush_errors env place new d after err failed) refused fuel enough
  | kv =>
      have kept := KvIndex.failed_flush_iff env.kv old new place.region narrow narrowNew
        sound.region_aligned sound.region_low blank stored d after err flushed region failed refused
      constructor
      · exact congrArg some kept.1
      · exact Iff.trans (Option.some_inj) kept.2
  | forward =>
      obtain ⟨regions, written⟩ := flush_units _ _ _ flushed
      have kept := ForwardIndex.failed_flush_iff env.forward old new narrow place.region
        place.area place.cap regions sound.area_aligned sound.area_low sound.apart blank stored d
        after err written region slots (flush_errors _ _ _ _ failed) refused
      constructor
      · exact congrArg some kept.1
      · exact Iff.trans (Option.some_inj) kept.2

def sampleIndexEnv : IndexEnv where
  crc := crc32c
  roaring := sampleRoaring
  hash _ := 0
  tagCbor := sampleTagEnv.cbor
  forwardCbor := sampleForwardEnv.cbor

def samplePlace : IndexPlace := { region := 0, area := regionSize, cap := 1 }

def oldTags : IndexKind.tag.InMemory := tagsOf [(1, .simple {5})]

def newTags (number : Nat) : IndexKind.tag.InMemory :=
  tagsOf [(1, .simple {number}), (2, .simple {9})]

def flushedTags : Device := (IndexKind.tag.flush sampleIndexEnv samplePlace oldTags emptyDevice).2

theorem old_tags_flushed :
    IndexKind.tag.flush sampleIndexEnv samplePlace oldTags emptyDevice = (.ok (), flushedTags) := by
  apply DeviceM.ok_of_fst
  simp only [IndexKind.flush, oldTags, TagIndex.flushToRegion, tagsOf]
  rw [to_sorted_of_entries _ (by decide)]
  decide +kernel

theorem sample_place_sound : samplePlace.Sound .tag where
  region_aligned := Nat.dvd_zero _
  region_low := by decide
  area_aligned := by decide
  area_low := by decide
  apart := by decide

theorem old_tags_narrow : IndexKind.tag.Narrow oldTags := by
  show ∀ entry ∈ toSorted (ofEntries [(1, TagStore.simple {5})]), entry.1 < 2 ^ 32
  rw [to_sorted_of_entries _ (by decide)]
  decide

/-- The page of the first new tag lies in the place of the old one when the second is refused. -/
theorem failed_flush_replaces_tag :
    ∃ (stored after : Device) (err : IndexError),
      IndexKind.tag.flush sampleIndexEnv samplePlace oldTags emptyDevice = (.ok (), stored) ∧
        IndexKind.tag.flush sampleIndexEnv samplePlace (newTags 7) stored = (.error err, after) ∧
        err = .bitmapAreaExhausted 2 1 ∧
        ∀ fuel, 1 < fuel →
          IndexKind.tag.load sampleIndexEnv samplePlace fuel after ≠ some (.ok oldTags) := by
  have stopped : (IndexKind.tag.flush sampleIndexEnv samplePlace (newTags 7) flushedTags).1 =
      .error (.bitmapAreaExhausted 2 1) := by
    simp only [IndexKind.flush, newTags, TagIndex.flushToRegion, tagsOf]
    rw [to_sorted_of_entries _ (by decide)]
    decide +kernel
  have failed := DeviceM.error_of_fst _ _ _ stopped
  refine ⟨_, _, _, old_tags_flushed, failed, rfl, ?_⟩
  intro fuel enough loaded
  obtain ⟨pages, written⟩ := tag_flush_units _ _ _ _ _ old_tags_flushed
  have kept := TagIndex.failed_flush_iff sampleIndexEnv.tag oldTags (newTags 7) old_tags_narrow
    samplePlace.region samplePlace.area samplePlace.cap pages sample_place_sound.area_aligned
    sample_place_sound.area_low sample_place_sound.apart emptyDevice _ _ _ _ written
    (agrees_refl _ _ _) (agrees_refl _ _ _) (tag_flush_errors _ _ _ _ _ _ failed) id fuel enough
  have found := kept.2.mp loaded
  simp only [TagIndex.failedPages, oldTags, newTags, tagsOf] at found
  rw [to_sorted_of_entries _ (by decide), to_sorted_of_entries _ (by decide)] at found
  exact absurd found (by decide +kernel)

/-- A page that is written again as it was does no harm. -/
theorem failed_flush_repeats_tag :
    ∃ after : Device,
      IndexKind.tag.flush sampleIndexEnv samplePlace (newTags 5) flushedTags =
          (.error (.bitmapAreaExhausted 2 1), after) ∧
        IndexKind.tag.load sampleIndexEnv samplePlace 2 after = some (.ok oldTags) := by
  have stopped : (IndexKind.tag.flush sampleIndexEnv samplePlace (newTags 5) flushedTags).1 =
      .error (.bitmapAreaExhausted 2 1) := by
    simp only [IndexKind.flush, newTags, TagIndex.flushToRegion, tagsOf]
    rw [to_sorted_of_entries _ (by decide)]
    decide +kernel
  have failed := DeviceM.error_of_fst _ _ _ stopped
  have harmless : IndexKind.tag.Harmless sampleIndexEnv 1 oldTags (newTags 5) := by
    simp only [IndexKind.Harmless, TagIndex.failedPages, oldTags, newTags, tagsOf]
    rw [to_sorted_of_entries _ (by decide), to_sorted_of_entries _ (by decide)]
    decide +kernel
  have narrowNew : IndexKind.tag.Narrow (newTags 5) := by
    show ∀ entry ∈ toSorted (ofEntries [(1, TagStore.simple {5}), (2, TagStore.simple {9})]),
      entry.1 < 2 ^ 32
    rw [to_sorted_of_entries _ (by decide)]
    decide
  exact ⟨_, failed, (failed_flush_keeps_index_iff sampleIndexEnv .tag samplePlace
    sample_place_sound oldTags (newTags 5) old_tags_narrow narrowNew emptyDevice flushedTags
    flushedTags _ _ old_tags_flushed (agrees_refl _ _ _) (agrees_refl _ _ _) failed id 2
    (by decide)).2.mpr harmless⟩

end Mimisbrunnr.Index
