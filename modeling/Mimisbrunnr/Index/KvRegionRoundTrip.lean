import Mimisbrunnr.Index.KvRegion
import Mimisbrunnr.Storage.BtreeRoundTrip
import Mimisbrunnr.Storage.Slots

/-!
# The equality index is read back

A flush that succeeds has one bucket, since the pages of more entries do not fit
the region. It writes to the region only, and from there the index is read back.
-/

namespace Mimisbrunnr.Index

set_option autoImplicit false

open Mimisbrunnr.Lib
open Mimisbrunnr.Lib.ByteStore
open Mimisbrunnr.Lib.FiniteMap
open Mimisbrunnr.Lib.Layout
open Mimisbrunnr.Lib.SlotChains
open Mimisbrunnr.Storage
open Mimisbrunnr.Types

private theorem few_entries_one_bucket (entryCount : Nat) (few : entryCount ≤ kvBucketMaxEntries) :
    selectGlobalDepth entryCount = 0 := by
  rw [selectGlobalDepth, if_pos few]

theorem region_holds_few (entryCount : Nat)
    (fits : ¬ slotsPerRegion < 1 + 2 ^ selectGlobalDepth entryCount + entryCount) :
    entryCount ≤ 62 ∧ selectGlobalDepth entryCount = 0 := by
  have positive : 0 < 2 ^ selectGlobalDepth entryCount := Nat.two_pow_pos _
  rw [slotsPerRegion] at fits
  have few : entryCount ≤ 62 := by omega
  exact ⟨few, few_entries_one_bucket entryCount (by rw [kvBucketMaxEntries]; omega)⟩

namespace KvBucketBlock

def slotsOf (entries : List KvBucketEntry) : List.Vector KvBucketEntry kvBucketMaxEntries :=
  ⟨(entries ++ List.replicate kvBucketMaxEntries KvBucketEntry.default).take kvBucketMaxEntries,
    by simp⟩

def filled (entries : List KvBucketEntry) : KvBucketBlock :=
  { new 0 with entryCount := UInt16.ofNat entries.length, entries := slotsOf entries }

private theorem slots_nil :
    slotsOf [] = List.Vector.replicate kvBucketMaxEntries KvBucketEntry.default := by
  apply Subtype.ext
  show ([] ++ List.replicate kvBucketMaxEntries KvBucketEntry.default).take kvBucketMaxEntries =
    List.replicate kvBucketMaxEntries KvBucketEntry.default
  rw [List.nil_append, List.take_replicate, Nat.min_self]

theorem filled_nil : filled [] = new 0 := by
  rw [filled, slots_nil]
  rfl

theorem count_filled (entries : List KvBucketEntry) (few : entries.length ≤ kvBucketMaxEntries) :
    (filled entries).entryCount.toNat = entries.length := by
  rw [filled, UInt16.toNat_ofNat']
  apply Nat.mod_eq_of_lt
  rw [kvBucketMaxEntries] at few
  omega

theorem iter_filled (entries : List KvBucketEntry) (few : entries.length ≤ kvBucketMaxEntries) :
    (filled entries).iter = entries := by
  have slots : (filled entries).entries.toList =
      (entries ++ List.replicate kvBucketMaxEntries KvBucketEntry.default).take
        kvBucketMaxEntries := rfl
  rw [iter, count_filled entries few, slots, Nat.min_eq_left few, List.take_take,
    Nat.min_eq_left few, List.take_left]

/-- Setting the first free slot appends. -/
theorem set_next_slot (entries : List KvBucketEntry) (entry : KvBucketEntry)
    (room : entries.length < kvBucketMaxEntries) :
    ((entries ++ List.replicate kvBucketMaxEntries KvBucketEntry.default).take
        kvBucketMaxEntries).set entries.length entry =
      ((entries ++ [entry]) ++ List.replicate kvBucketMaxEntries KvBucketEntry.default).take
        kvBucketMaxEntries := by
  apply List.ext_getElem?
  intro index
  rw [List.append_assoc, List.getElem?_set, List.getElem?_take, List.getElem?_take,
    List.length_take, List.length_append, List.length_replicate]
  rcases Nat.lt_trichotomy index entries.length with before | same | behind
  · have other : ¬ entries.length = index := by omega
    rw [if_neg other, List.getElem?_append_left before, List.getElem?_append_left before]
  · subst same
    have inside : entries.length < min kvBucketMaxEntries (entries.length + kvBucketMaxEntries) := by
      omega
    rw [if_pos rfl, if_pos inside, if_pos room, List.getElem?_append_right (Nat.le_refl _)]
    simp
  · have other : ¬ entries.length = index := by omega
    rw [if_neg other, List.getElem?_append_right (by omega),
      List.getElem?_append_right (by omega)]
    split
    · next inside =>
        rw [List.getElem?_append_right (by simp only [List.length_singleton]; omega),
          List.getElem?_replicate, List.getElem?_replicate, if_pos (by omega),
          if_pos (by simp only [List.length_singleton]; omega)]
    · rfl

/-- A new key is appended. -/
theorem upsert_filled (entries : List KvBucketEntry) (tagId : UInt32) (valueHash : UInt64)
    (bitmapRef : BlockRef) (room : entries.length < kvBucketMaxEntries)
    (fresh : ∀ entry ∈ entries, ¬ (entry.tagId = tagId ∧ entry.valueHash = valueHash)) :
    (filled entries).upsert tagId valueHash bitmapRef =
      .ok (filled (entries ++ [⟨tagId, valueHash, bitmapRef⟩])) := by
  have few := Nat.le_of_lt room
  have absent : entries.findIdx? (fun entry =>
      entry.tagId = tagId && entry.valueHash = valueHash) = none := by
    rw [List.findIdx?_eq_none_iff]
    intro entry member
    have other := fresh entry member
    simpa using other
  have count := count_filled entries few
  rw [upsert, iter_filled entries few, absent, count]
  dsimp only
  rw [if_neg (Nat.not_le.mpr room)]
  apply congrArg Except.ok
  have next : (filled entries).entryCount + 1 =
      (filled (entries ++ [⟨tagId, valueHash, bitmapRef⟩])).entryCount := by
    apply UInt16.toNat_inj.mp
    rw [UInt16.toNat_add, count, count_filled _ (by rw [List.length_append]; exact room),
      List.length_append]
    apply Nat.mod_eq_of_lt
    rw [kvBucketMaxEntries] at room
    simp only [UInt16.reduceToNat]
    omega
  have slots : setAt (filled entries).entries entries.length ⟨tagId, valueHash, bitmapRef⟩ =
      (filled (entries ++ [⟨tagId, valueHash, bitmapRef⟩])).entries :=
    Subtype.ext (set_next_slot entries _ room)
  rw [next, slots]
  rfl

private theorem validate_filled (entries : List KvBucketEntry)
    (few : entries.length ≤ kvBucketMaxEntries) : (filled entries).validate = .ok () := by
  have count := count_filled entries few
  have magic : (filled entries).header.magic = blockMagic := rfl
  have kind : (filled entries).header.kind = BlockKind.kvHashBucket.toU16 := rfl
  have version : (filled entries).header.formatVersion = kvBucketFormatVersion := rfl
  rw [validate, magic, kind, version, count, if_neg (fun different => different rfl),
    if_neg (fun different => different rfl), if_neg (fun different => different rfl),
    if_neg (Nat.not_lt.mpr few)]

/-- A bucket that was written is read back where the bytes are the same. -/
theorem bucket_read_back (crc : Crc) (entries : List KvBucketEntry)
    (few : entries.length ≤ kvBucketMaxEntries) (offset : Nat) (d after : Device)
    (ok : write crc (filled entries) offset d = (.ok (), after)) :
    ChangesWithin offset blockSize d after ∧
      ∀ e, AgreesOn offset blockSize after e → read crc e offset = .ok (filled entries) := by
  have stored := sealed_read_back crc body rfl _ offset d after
    (DeviceM.map_error_ok _ _ _ _ _ ok)
  refine ⟨stored.1, ?_⟩
  intro e agrees
  rw [read, stored.2 e agrees]
  dsimp only
  rw [body_of_sealed, validate_filled entries few, broken_seal_sealed]
  rfl

end KvBucketBlock

/-- The page of a bitmap lies in a slot of the region. -/
def BitmapAt (env : KvRegionEnv) (offset : Nat) (d : Device) (slot : Nat) (bitmap : Finset Nat) :
    Prop :=
  ∃ page, TagBitmapPage.read env.crc d (offset + slot * blockSize) = .ok page ∧
    page.toBitmap env.roaring = .ok bitmap

/-- The bucket entries of bitmaps in consecutive slots. -/
def kvPlaced (offset : Nat) : Nat → List ((TagId × UInt64) × Finset Nat) → List KvBucketEntry
  | _, [] => []
  | slot, ((tag, valueHash), _) :: rest =>
      ⟨UInt32.ofNat tag, valueHash, BlockRef.at_ (offset + slot * blockSize)⟩ ::
        kvPlaced offset (slot + 1) rest

theorem length_kv_placed (offset : Nat) (rest : List ((TagId × UInt64) × Finset Nat)) :
    ∀ slot, (kvPlaced offset slot rest).length = rest.length := by
  induction rest with
  | nil =>
      intro slot
      rfl
  | cons first rest ih =>
      intro slot
      rw [kvPlaced, List.length_cons, ih, List.length_cons]

def FreshKeys (entries : List KvBucketEntry) (rest : List ((TagId × UInt64) × Finset Nat)) : Prop :=
  ∀ entry ∈ entries, ∀ other ∈ rest,
    ¬ (entry.tagId = UInt32.ofNat other.1.1 ∧ entry.valueHash = other.1.2)

theorem fresh_keys_step (entries : List KvBucketEntry) (tag : TagId) (valueHash : UInt64)
    (bitmap : Finset Nat) (ref : BlockRef) (rest : List ((TagId × UInt64) × Finset Nat))
    (narrow : ∀ entry ∈ ((tag, valueHash), bitmap) :: rest, entry.1.1 < 2 ^ 32)
    (distinct : ((((tag, valueHash), bitmap) :: rest).map Prod.fst).Nodup)
    (fresh : FreshKeys entries (((tag, valueHash), bitmap) :: rest)) :
    FreshKeys (entries ++ [⟨UInt32.ofNat tag, valueHash, ref⟩]) rest := by
  intro held member other later both
  cases List.mem_append.mp member with
  | inl old => exact fresh held old other (List.mem_cons_of_mem _ later) both
  | inr new =>
      rw [List.mem_singleton.mp new] at both
      rw [List.map_cons, List.nodup_cons] at distinct
      apply distinct.1
      have tags : tag = other.1.1 := by
        have equal := congrArg UInt32.toNat both.1
        rw [UInt32.toNat_ofNat', UInt32.toNat_ofNat',
          Nat.mod_eq_of_lt (narrow _ List.mem_cons_self),
          Nat.mod_eq_of_lt (narrow other (List.mem_cons_of_mem _ later))] at equal
        exact equal
      have keys : other.1 = (tag, valueHash) := Prod.ext tags.symm both.2.symm
      have listed : other.1 ∈ rest.map Prod.fst := List.mem_map_of_mem later
      exact keys ▸ listed

section

variable (env : KvRegionEnv) (offset : Nat)

theorem bitmap_local : SlotLocal (BitmapAt env offset) offset blockSize := by
  intro d e slot bitmap same here
  obtain ⟨page, read, content⟩ := here
  exact ⟨page, (TagBitmapPage.read_agrees env.crc _ same).trans read, content⟩

/-- The page of the next bitmap, and the bucket with its entry. -/
theorem kv_page_written (entries : List KvBucketEntry) (tag : TagId) (valueHash : UInt64)
    (bitmap : Finset Nat) (rest : List ((TagId × UInt64) × Finset Nat)) (slot : Nat)
    (result : Except IndexError (List KvBucketBlock)) (d after : Device)
    (few : entries.length < kvBucketMaxEntries)
    (fresh : FreshKeys entries (((tag, valueHash), bitmap) :: rest))
    (fits : (env.roaring.serialise bitmap).length ≤ tagBitmapPageMaxBytes)
    (healthy : ∀ err, result = .error err → err ≠ .page .io)
    (ran : writeKvPages env offset 0 slot (((tag, valueHash), bitmap) :: rest)
      [KvBucketBlock.filled entries] d = (result, after)) :
    ∃ middle,
      DeviceM.writeAt (offset + slot * blockSize) (sealed env.crc TagBitmapPage.body
        (.fromBytesChunk (env.roaring.serialise bitmap) BlockRef.zero)) d = (.ok (), middle) ∧
      ChangesWithin (offset + slot * blockSize) blockSize d middle ∧
      BitmapAt env offset middle slot bitmap ∧
      writeKvPages env offset 0 (slot + 1) rest [KvBucketBlock.filled (entries ++
        [⟨UInt32.ofNat tag, valueHash, BlockRef.at_ (offset + slot * blockSize)⟩])] middle =
        (result, after) := by
  let place := offset + slot * blockSize
  let page := TagBitmapPage.fromBytesChunk (env.roaring.serialise bitmap) BlockRef.zero
  have made := TagBitmapPage.from_bitmap_ok env.roaring bitmap fits
  have content := (TagBitmapPage.to_bitmap_from_bitmap env.roaring bitmap page made).2
  have entered := KvBucketBlock.upsert_filled entries (UInt32.ofNat tag) valueHash
    (BlockRef.at_ place) few fun entry member =>
      fresh entry member ((tag, valueHash), bitmap) List.mem_cons_self
  have step : writeKvPages env offset 0 slot (((tag, valueHash), bitmap) :: rest)
      [KvBucketBlock.filled entries] d =
      match page.write env.crc place d with
      | (.ok _, middle) => writeKvPages env offset 0 (slot + 1) rest
          [KvBucketBlock.filled (entries ++
            [⟨UInt32.ofNat tag, valueHash, BlockRef.at_ place⟩])] middle
      | (.error err, middle) => (.error (.page err), middle) := by
    have zero : directoryIndex valueHash 0 = 0 := rfl
    rw [writeKvPages, made, zero]
    dsimp only
    rw [List.getD_cons_zero, entered]
    simp only [Except.mapError, bind, DeviceM.lift, DeviceM.mapError, List.set_cons_zero]
    cases page.write env.crc place d with
    | mk outcome middle =>
        cases outcome with
        | ok done => rfl
        | error err => rfl
  rw [step] at ran
  split at ran
  · next middle written =>
      have pageBack := TagBitmapPage.page_read_back env.crc _ _ _ _ _ written
      exact ⟨middle, DeviceM.map_error_ok _ _ _ _ _ written, pageBack.1,
        ⟨page, pageBack.2 middle (agrees_refl _ _ _), content⟩, ran⟩
  · next err middle written =>
      cases ran
      rw [TagBitmapPage.write_failed env.crc _ _ _ _ _ written] at healthy
      exact absurd rfl (healthy _ rfl)

/-- The bitmaps in front of the first that does not fit a page. -/
def fittingBitmaps (roaring : Roaring) (bitmaps : List (Finset Nat)) : List (Finset Nat) :=
  bitmaps.takeWhile fun bitmap =>
    decide ((roaring.serialise bitmap).length ≤ tagBitmapPageMaxBytes)

/-- The bitmaps lie in their slots as far as they fit pages; when all do, the bucket holds them. -/
theorem kv_pages_written (rest : List ((TagId × UInt64) × Finset Nat))
    (narrow : ∀ entry ∈ rest, entry.1.1 < 2 ^ 32) (distinct : (rest.map Prod.fst).Nodup) :
    ∀ slot entries result d after, entries.length + rest.length ≤ kvBucketMaxEntries →
      FreshKeys entries rest → (∀ err, result = .error err → err ≠ .page .io) →
      writeKvPages env offset 0 slot rest [KvBucketBlock.filled entries] d = (result, after) →
      ChangesWithin (offset + slot * blockSize)
          ((fittingBitmaps env.roaring (rest.map Prod.snd)).length * blockSize) d after ∧
        Laid (BitmapAt env offset after) slot (fittingBitmaps env.roaring (rest.map Prod.snd)) ∧
        ∀ buckets, result = .ok buckets →
          fittingBitmaps env.roaring (rest.map Prod.snd) = rest.map Prod.snd ∧
            buckets = [KvBucketBlock.filled (entries ++ kvPlaced offset slot rest)] := by
  induction rest with
  | nil =>
      intro slot entries result d after _ _ _ ran
      cases ran
      refine ⟨changes_within_refl _ _ _, laid_nil slot, ?_⟩
      intro buckets same
      cases same
      exact ⟨rfl, by rw [kvPlaced, List.append_nil]⟩
  | cons first rest ih =>
      obtain ⟨⟨tag, valueHash⟩, bitmap⟩ := first
      intro slot entries result d after few fresh healthy ran
      rw [List.length_cons] at few
      by_cases fits : (env.roaring.serialise bitmap).length ≤ tagBitmapPageMaxBytes
      · obtain ⟨middle, -, changes, page, ran⟩ := kv_page_written env offset entries tag valueHash
          bitmap rest slot result d after (by omega) fresh fits healthy ran
        obtain ⟨restChanges, restLaid, restDone⟩ := ih
          (fun other member => narrow other (List.mem_cons_of_mem _ member))
          (List.nodup_cons.mp distinct).2 (slot + 1) _ result middle after
          (by rw [List.length_append, List.length_singleton]; omega)
          (fresh_keys_step entries tag valueHash bitmap _ rest narrow distinct fresh) healthy ran
        have fitting : fittingBitmaps env.roaring
            ((((tag, valueHash), bitmap) :: rest).map Prod.snd) =
            bitmap :: fittingBitmaps env.roaring (rest.map Prod.snd) :=
          List.takeWhile_cons_of_pos (decide_eq_true fits)
        rw [fitting, List.length_cons, laid_cons]
        refine ⟨?_, ⟨?_, restLaid⟩, ?_⟩
        · exact changes_within_trans
            (changes_within_mono changes (Nat.le_refl _) (by simp only [blockSize]; omega))
            (changes_within_mono restChanges (by simp only [blockSize]; omega)
              (by simp only [blockSize]; omega))
        · apply bitmap_local env offset _ after slot bitmap _ page
          apply agrees_of_apart restChanges
          unfold Apart
          simp only [blockSize]
          omega
        · intro buckets same
          obtain ⟨all, buckets⟩ := restDone buckets same
          rw [all, buckets, List.append_assoc]
          exact ⟨rfl, rfl⟩
      · have made : TagBitmapPage.fromBitmap env.roaring bitmap =
            .error (.oversize (env.roaring.serialise bitmap).length) := by
          unfold TagBitmapPage.fromBitmap
          exact if_pos (Nat.lt_of_not_le fits)
        rw [writeKvPages, made] at ran
        cases ran
        have fitting : fittingBitmaps env.roaring
            ((((tag, valueHash), bitmap) :: rest).map Prod.snd) = [] :=
          List.takeWhile_cons_of_neg (by simpa using fits)
        rw [fitting]
        refine ⟨changes_within_refl _ _ _, laid_nil slot, ?_⟩
        intro buckets same
        cases same

/-- Writes images to slots of the region, one after another. -/
def writeSlots (offset : Nat) : List (Nat × List UInt8) → DeviceM StorageError Unit
  | [] => pure ()
  | (slot, image) :: rest => do
      DeviceM.writeAt (offset + slot * blockSize) image
      writeSlots offset rest

/-- The pages of bitmaps in consecutive slots. -/
def kvPageBlocks (env : KvRegionEnv) : Nat → List (Finset Nat) → List (Nat × List UInt8)
  | _, [] => []
  | slot, bitmap :: rest =>
      (slot, sealed env.crc TagBitmapPage.body
        (.fromBytesChunk (env.roaring.serialise bitmap) BlockRef.zero)) ::
        kvPageBlocks env (slot + 1) rest

private theorem slots_kv_page_blocks (bitmaps : List (Finset Nat)) :
    ∀ slot, (kvPageBlocks env slot bitmaps).map Prod.fst = List.range' slot bitmaps.length := by
  induction bitmaps with
  | nil =>
      intro slot
      rfl
  | cons bitmap rest ih =>
      intro slot
      rw [kvPageBlocks, List.map_cons, ih, List.length_cons, List.range'_succ]

private theorem length_kv_page_blocks (bitmaps : List (Finset Nat)) :
    ∀ slot, ∀ block ∈ kvPageBlocks env slot bitmaps, block.2.length = blockSize := by
  induction bitmaps with
  | nil =>
      intro slot block member
      exact absurd member List.not_mem_nil
  | cons bitmap rest ih =>
      intro slot block member
      cases List.mem_cons.mp member with
      | inl same =>
          rw [same, length_sealed]
          rfl
      | inr later => exact ih _ block later

private theorem write_slots_append (first second : List (Nat × List UInt8)) :
    ∀ d middle after, writeSlots offset first d = (.ok (), middle) →
      writeSlots offset second middle = (.ok (), after) →
      writeSlots offset (first ++ second) d = (.ok (), after) := by
  induction first with
  | nil =>
      intro d middle after left right
      cases left
      exact right
  | cons block rest ih =>
      intro d middle after left right
      obtain ⟨⟨⟩, next, written, left⟩ := DeviceM.bind_ok _ _ _ _ _ left
      exact (DeviceM.bind_of_ok _ _ _ _ _ written).trans (ih _ _ _ left right)

/-- When all bitmaps fit pages, the pages are written one after another. -/
theorem kv_page_blocks_written (rest : List ((TagId × UInt64) × Finset Nat))
    (narrow : ∀ entry ∈ rest, entry.1.1 < 2 ^ 32) (distinct : (rest.map Prod.fst).Nodup) :
    ∀ slot entries buckets d after, entries.length + rest.length ≤ kvBucketMaxEntries →
      FreshKeys entries rest →
      writeKvPages env offset 0 slot rest [KvBucketBlock.filled entries] d = (.ok buckets, after) →
      writeSlots offset (kvPageBlocks env slot (rest.map Prod.snd)) d = (.ok (), after) := by
  induction rest with
  | nil =>
      intro slot entries buckets d after _ _ ran
      cases ran
      rfl
  | cons first rest ih =>
      obtain ⟨⟨tag, valueHash⟩, bitmap⟩ := first
      intro slot entries buckets d after few fresh ran
      rw [List.length_cons] at few
      by_cases fits : (env.roaring.serialise bitmap).length ≤ tagBitmapPageMaxBytes
      · obtain ⟨middle, written, -, -, ran⟩ := kv_page_written env offset entries tag valueHash
          bitmap rest slot (.ok buckets) d after (by omega) fresh fits
          (fun err same => by cases same) ran
        have later := ih (fun other member => narrow other (List.mem_cons_of_mem _ member))
          (List.nodup_cons.mp distinct).2 (slot + 1) _ buckets middle after
          (by rw [List.length_append, List.length_singleton]; omega)
          (fresh_keys_step entries tag valueHash bitmap _ rest narrow distinct fresh) ran
        exact (DeviceM.bind_of_ok _ _ _ _ _ written).trans later
      · have made : TagBitmapPage.fromBitmap env.roaring bitmap =
            .error (.oversize (env.roaring.serialise bitmap).length) := by
          unfold TagBitmapPage.fromBitmap
          exact if_pos (Nat.lt_of_not_le fits)
        rw [writeKvPages, made] at ran
        cases ran

/-- What the bucket entries lead to, whatever bitmaps lie in the slots. -/
theorem read_kv_placed (aligned : blockSize ∣ offset) (e : Device)
    (rest : List ((TagId × UInt64) × Finset Nat)) (narrow : ∀ entry ∈ rest, entry.1.1 < 2 ^ 32) :
    ∀ slot bitmaps, 0 < slot → bitmaps.length = rest.length →
      offset + (slot + rest.length) * blockSize ≤ 2 ^ 32 * blockSize →
      Laid (BitmapAt env offset e) slot bitmaps → ∀ found,
        readKvEntries env e (kvPlaced offset slot rest) found =
          .ok (((rest.map Prod.fst).zip bitmaps).foldl
            (fun m entry => Bitmaps.replace m entry.1 entry.2) found) := by
  induction rest with
  | nil =>
      intro slot bitmaps _ _ _ _ found
      rfl
  | cons first rest ih =>
      obtain ⟨⟨tag, valueHash⟩, bitmap⟩ := first
      intro slot bitmaps positive enough low laid found
      cases bitmaps with
      | nil => cases enough
      | cons content bitmaps =>
          rw [List.length_cons] at low enough
          obtain ⟨⟨page, read, back⟩, behind⟩ := (laid_cons slot content bitmaps).mp laid
          have spot : blockSize ∣ offset + slot * blockSize :=
            Nat.dvd_add aligned (Nat.dvd_mul_left _ _)
          have below : offset + slot * blockSize < 2 ^ 32 * blockSize := by
            simp only [blockSize] at low ⊢
            omega
          have above : 0 < offset + slot * blockSize := by
            simp only [blockSize]
            omega
          have number : (UInt32.ofNat tag).toNat = tag := by
            rw [UInt32.toNat_ofNat']
            exact Nat.mod_eq_of_lt (narrow _ List.mem_cons_self)
          have later := ih (fun other member => narrow other (List.mem_cons_of_mem _ member))
            (slot + 1) bitmaps (Nat.succ_pos _) (Nat.succ.inj enough)
            (by rw [show slot + 1 + rest.length = slot + (rest.length + 1) by omega]; exact low)
            behind
          rw [kvPlaced, readKvEntries, if_neg (BlockRef.block_no_at_ne_zero _ spot below above),
            BlockRef.offset_at _ spot below, read]
          simp only [Except.mapError, bind, Except.bind]
          rw [back]
          dsimp only
          rw [number, later]
          rfl

end

namespace KvDirectoryBlock

/-- The directory of one bucket. -/
def single (ref : BlockRef) : KvDirectoryBlock :=
  { header := BlockHeader.new .kvHashDirectory kvDirectoryFormatVersion 4060
    globalDepth := 0
    pad0 := List.Vector.replicate 3 0
    bucketCount := 1
    entries := setAt (List.Vector.replicate kvDirectoryInlineEntries BlockRef.zero) 0 ref
    spilloverRoot := BlockRef.zero
    padTail := List.Vector.replicate 4 0 }

private theorem get_entry_single (ref : BlockRef) : (single ref).getEntry 0 = ref := rfl

private theorem buckets_single (ref : BlockRef) : List.range (single ref).bucketCount.toNat =
    [0] := rfl

private theorem validate_single (ref : BlockRef) : (single ref).validate = .ok () := by
  simp [validate, single, BlockHeader.new, kvDirectoryMaxInlineDepth]

private theorem directory_read_back (crc : Crc) (ref : BlockRef) (offset : Nat) (d after : Device)
    (ok : write crc (single ref) offset d = (.ok (), after)) :
    ChangesWithin offset blockSize d after ∧
      ∀ e, AgreesOn offset blockSize after e →
        isBlank e offset = .ok false ∧ read crc e offset = .ok (single ref) := by
  have stored := sealed_read_back crc body rfl _ offset d after
    (DeviceM.map_error_ok _ _ _ _ _ ok)
  refine ⟨stored.1, ?_⟩
  intro e agrees
  have here := stored.2 e agrees
  constructor
  · exact not_blank_of_first e offset blockSize _ 0x4d here (by decide) rfl (by decide)
  · rw [read, here]
    dsimp only
    rw [body_of_sealed, validate_single, broken_seal_sealed]
    rfl

end KvDirectoryBlock

theorem sorted_keys_nodup (index : KvIndex) : (index.sortedEntries.map Prod.fst).Nodup :=
  (@increasing_to_sorted _ _ kvOrder index.entries.sets).imp fun less =>
    @ne_of_lt _ kvOrder.toPreorder _ _ less

private theorem mem_sorted_entries (index : KvIndex) (key : TagId × UInt64) (set : Finset Nat) :
    (key, set) ∈ index.sortedEntries ↔ index.entries.sets.lookup key = some set :=
  @mem_to_sorted _ _ kvOrder index.entries.sets key set

/-- An index is loaded through a directory of one bucket. -/
theorem single_bucket_loads (env : KvRegionEnv) (e : Device) (offset spot : Nat)
    (found : Bitmaps.BitmapMap (TagId × UInt64)) (placed : List KvBucketEntry)
    (place : (BlockRef.at_ spot).offset = spot) (used : (BlockRef.at_ spot).blockNo ≠ 0)
    (few : placed.length ≤ kvBucketMaxEntries) (written : isBlank e offset = .ok false)
    (directory : KvDirectoryBlock.read env.crc e offset =
      .ok (KvDirectoryBlock.single (BlockRef.at_ spot)))
    (bucket : KvBucketBlock.read env.crc e spot = .ok (KvBucketBlock.filled placed))
    (pages : readKvEntries env e placed Bitmaps.empty = .ok found) :
    KvIndex.loadFromRegion env e offset = .ok { entries := found } := by
  have read : readKvBuckets env e (KvDirectoryBlock.single (BlockRef.at_ spot)) [0] []
      Bitmaps.empty = .ok found := by
    rw [readKvBuckets, KvDirectoryBlock.get_entry_single, if_neg used, if_neg List.not_mem_nil,
      place, bucket]
    simp only [Except.mapError, bind, Except.bind]
    rw [KvBucketBlock.iter_filled placed few, pages]
    rfl
  rw [KvIndex.loadFromRegion, written]
  simp only [Except.mapError, bind, Except.bind, Bool.false_eq_true, if_false]
  rw [directory]
  dsimp only
  rw [KvDirectoryBlock.buckets_single, read]

/-- The directory and the bucket of an index. -/
structure KvHeads (env : KvRegionEnv) (offset : Nat) (index : KvIndex) (d : Device) : Prop where
  written : isBlank d offset = .ok false
  directory : KvDirectoryBlock.read env.crc d offset =
    .ok (KvDirectoryBlock.single (BlockRef.at_ (offset + 1 * blockSize)))
  bucket : KvBucketBlock.read env.crc d (offset + 1 * blockSize) =
    .ok (KvBucketBlock.filled (kvPlaced offset 2 index.sortedEntries))

section

variable (env : KvRegionEnv) (index : KvIndex) (offset : Nat)
  (narrow : ∀ entry ∈ index.sortedEntries, entry.1.1 < 2 ^ 32)

include narrow

/-- The steps of a flush that succeeds: the pages, the bucket, the directory. -/
theorem kv_flush_steps (d after : Device)
    (ok : index.flushToRegion env offset d = (.ok (), after)) :
    index.sortedEntries.length ≤ 62 ∧ ∃ middle late,
      writeKvPages env offset 0 2 index.sortedEntries [KvBucketBlock.filled []] d =
        (.ok [KvBucketBlock.filled (kvPlaced offset 2 index.sortedEntries)], middle) ∧
      KvBucketBlock.write env.crc (KvBucketBlock.filled (kvPlaced offset 2 index.sortedEntries))
        (offset + 1 * blockSize) middle = (.ok (), late) ∧
      KvDirectoryBlock.write env.crc (KvDirectoryBlock.single (BlockRef.at_ (offset + 1 * blockSize)))
        offset late = (.ok (), after) := by
  unfold KvIndex.flushToRegion at ok
  dsimp only at ok
  split at ok
  · cases ok
  split at ok
  · cases ok
  next fits =>
    obtain ⟨few, depth⟩ := region_holds_few index.sortedEntries.length fits
    rw [depth] at ok
    obtain ⟨buckets, middle, pages, ok⟩ := DeviceM.bind_ok _ _ _ _ _ ok
    have start : List.replicate (2 ^ 0) (KvBucketBlock.new (UInt8.ofNat 0)) =
        [KvBucketBlock.filled []] := by
      rw [KvBucketBlock.filled_nil]
      rfl
    rw [start] at pages
    obtain ⟨-, -, done⟩ := kv_pages_written env offset index.sortedEntries narrow
      (sorted_keys_nodup index) 2 [] (.ok buckets) d middle
      (by rw [kvBucketMaxEntries, List.length_nil]; omega)
      (fun entry member => absurd member List.not_mem_nil) (fun err same => by cases same) pages
    obtain ⟨-, bucketsAre⟩ := done buckets rfl
    rw [List.nil_append] at bucketsAre
    subst bucketsAre
    obtain ⟨⟨⟩, late, written, ok⟩ := DeviceM.bind_ok _ _ _ _ _ ok
    obtain ⟨⟨⟩, later, bucket, rest⟩ := DeviceM.bind_ok _ _ _ _ _ written
    obtain ⟨-, unchanged⟩ := DeviceM.pure_ok _ _ _ _ rest
    subst unchanged
    obtain ⟨blank, same, lifted, ok⟩ := DeviceM.bind_ok _ _ _ _ _ ok
    obtain ⟨made, unchanged⟩ := DeviceM.lift_ok _ _ _ _ lifted
    subst unchanged
    have shape : (List.range (2 ^ 0)).foldl (fun (directory : KvDirectoryBlock) index =>
        directory.setEntry index (BlockRef.at_ (offset + (1 + index) * blockSize))) blank =
        KvDirectoryBlock.single (BlockRef.at_ (offset + 1 * blockSize)) := by
      cases map_error_inv made
      rfl
    rw [shape] at ok
    exact ⟨few, middle, later, pages, DeviceM.map_error_ok _ _ _ _ _ bucket,
      DeviceM.map_error_ok _ _ _ _ _ ok⟩

/-- What a flush that succeeds has done. -/
theorem kv_flush_written (d after : Device)
    (ok : index.flushToRegion env offset d = (.ok (), after)) :
    index.sortedEntries.length ≤ 62 ∧ ChangesWithin offset regionSize d after ∧
      Laid (BitmapAt env offset after) 2 (index.sortedEntries.map Prod.snd) ∧
      ∀ e, AgreesOn offset (2 * blockSize) after e → KvHeads env offset index e := by
  obtain ⟨few, middle, late, pages, bucket, directory⟩ :=
    kv_flush_steps env index offset narrow d after ok
  have region : regionSize = 64 * blockSize := rfl
  have one : 1 * blockSize = blockSize := Nat.one_mul _
  have pagesFit : index.sortedEntries.length * blockSize ≤ 62 * blockSize :=
    Nat.mul_le_mul_right _ few
  obtain ⟨pageChanges, laid, done⟩ := kv_pages_written env offset index.sortedEntries narrow
    (sorted_keys_nodup index) 2 [] (.ok _) d middle
    (by rw [kvBucketMaxEntries, List.length_nil]; omega)
    (fun entry member => absurd member List.not_mem_nil) (fun err same => by cases same) pages
  obtain ⟨all, -⟩ := done _ rfl
  rw [all, List.length_map] at pageChanges
  rw [all] at laid
  have placedFew : (kvPlaced offset 2 index.sortedEntries).length ≤ kvBucketMaxEntries := by
    rw [length_kv_placed, kvBucketMaxEntries]
    omega
  have bucketBack := KvBucketBlock.bucket_read_back env.crc _ placedFew _ _ _ bucket
  have directoryBack := KvDirectoryBlock.directory_read_back env.crc _ _ _ _ directory
  refine ⟨few, ?_, ?_, ?_⟩
  · exact changes_within_trans (changes_within_mono pageChanges (by omega) (by omega))
      (changes_within_trans (changes_within_mono bucketBack.1 (by omega) (by omega))
        (changes_within_mono directoryBack.1 (by omega) (by omega)))
  · apply (bitmap_local env offset).agree 2 _ laid
    exact agrees_trans (agrees_of_apart bucketBack.1 (by unfold Apart; omega))
      (agrees_of_apart directoryBack.1 (by unfold Apart; omega))
  · intro e agrees
    have directoryHere := directoryBack.2 e (agrees_mono agrees (by omega) (by omega))
    have bucketHere := bucketBack.2 e (agrees_trans
      (agrees_of_apart directoryBack.1 (by unfold Apart; omega))
      (agrees_mono agrees (by omega) (by omega)))
    exact ⟨directoryHere.1, directoryHere.2, bucketHere⟩

/-- An index is loaded through its directory and its bucket just when its bitmaps lie in the
slots. -/
theorem kv_index_loads_iff (aligned : blockSize ∣ offset)
    (low : offset + regionSize ≤ 2 ^ 32 * blockSize)
    (few : index.sortedEntries.length ≤ 62) (e : Device) (heads : KvHeads env offset index e)
    (bitmaps : List (Finset Nat)) (enough : bitmaps.length = index.sortedEntries.length)
    (laid : Laid (BitmapAt env offset e) 2 bitmaps) :
    KvIndex.loadFromRegion env e offset = .ok index ↔
      bitmaps = index.sortedEntries.map Prod.snd := by
  have region : regionSize = 64 * blockSize := rfl
  have spot : blockSize ∣ offset + 1 * blockSize := Nat.dvd_add aligned (Nat.dvd_mul_left _ _)
  have below : offset + 1 * blockSize < 2 ^ 32 * blockSize := by
    rw [region] at low
    simp only [blockSize] at low ⊢
    omega
  have above : 0 < offset + 1 * blockSize := by
    simp only [blockSize]
    omega
  have slots : (2 + index.sortedEntries.length) * blockSize ≤ 64 * blockSize :=
    Nat.mul_le_mul_right _ (by omega)
  have pages := read_kv_placed env offset aligned e index.sortedEntries narrow 2 bitmaps
    (Nat.succ_pos _) enough (Nat.le_trans (Nat.add_le_add_left slots offset) low) laid
    Bitmaps.empty
  have placedFew : (kvPlaced offset 2 index.sortedEntries).length ≤ kvBucketMaxEntries := by
    rw [length_kv_placed, kvBucketMaxEntries]
    omega
  have loaded := single_bucket_loads env e offset (offset + 1 * blockSize)
    (Bitmaps.ofEntries ((index.sortedEntries.map Prod.fst).zip bitmaps))
    (kvPlaced offset 2 index.sortedEntries) (BlockRef.offset_at _ spot below)
    (BlockRef.block_no_at_ne_zero _ spot below above) placedFew heads.written heads.directory
    heads.bucket pages
  have whole : Bitmaps.ofEntries ((index.sortedEntries.map Prod.fst).zip
      (index.sortedEntries.map Prod.snd)) = index.entries := by
    rw [List.zip_map', List.map_id']
    exact Bitmaps.of_entries_listed index.entries index.sortedEntries (sorted_keys_nodup index)
      (mem_sorted_entries index)
  rw [loaded]
  constructor
  · intro same
    have entries : Bitmaps.ofEntries ((index.sortedEntries.map Prod.fst).zip bitmaps) =
        index.entries := congrArg KvIndex.entries (Except.ok.inj same)
    rw [← whole] at entries
    apply Bitmaps.of_entries_zip _ (sorted_keys_nodup index) _ _ _ _ entries
    · rw [enough, List.length_map]
    · rw [List.length_map, List.length_map]
  · intro same
    rw [same]
    apply congrArg Except.ok
    exact congrArg KvIndex.mk whole

/-- An equality index that was flushed is read back where the bytes are the same. -/
theorem kv_index_read_back (aligned : blockSize ∣ offset)
    (low : offset + regionSize ≤ 2 ^ 32 * blockSize) (d after : Device)
    (ok : index.flushToRegion env offset d = (.ok (), after)) :
    ChangesWithin offset regionSize d after ∧
      ∀ e, AgreesOn offset regionSize after e →
        KvIndex.loadFromRegion env e offset = .ok index := by
  obtain ⟨few, changes, laid, heads⟩ := kv_flush_written env index offset narrow d after ok
  refine ⟨changes, ?_⟩
  intro e agrees
  have region : regionSize = 64 * blockSize := rfl
  apply (kv_index_loads_iff env index offset narrow aligned low few e
    (heads e (agrees_mono agrees (Nat.le_refl _) (by rw [region]; simp only [blockSize]; omega))) _
    (List.length_map _) _).mpr rfl
  apply (bitmap_local env offset).agree 2 _ laid
  rw [List.length_map]
  apply agrees_mono agrees
  · exact Nat.le_add_right _ _
  · rw [region]
    simp only [blockSize]
    omega

/-- The blocks of an index in the order in which they are written. -/
def kvBlocks (env : KvRegionEnv) (index : KvIndex) (offset : Nat) : List (Nat × List UInt8) :=
  kvPageBlocks env 2 (index.sortedEntries.map Prod.snd) ++
    [(1, sealed env.crc KvBucketBlock.body
        (KvBucketBlock.filled (kvPlaced offset 2 index.sortedEntries))),
      (0, sealed env.crc KvDirectoryBlock.body
        (KvDirectoryBlock.single (BlockRef.at_ (offset + 1 * blockSize))))]

omit narrow in
private theorem kv_blocks_apart (few : index.sortedEntries.length ≤ 62) :
    ((kvBlocks env index offset).map Prod.fst).Nodup ∧
      ∀ block ∈ kvBlocks env index offset,
        block.1 < slotsPerRegion ∧ block.2.length = blockSize := by
  have slots := slots_kv_page_blocks env (index.sortedEntries.map Prod.snd) 2
  rw [List.length_map] at slots
  constructor
  · rw [kvBlocks, List.map_append, slots, List.nodup_append]
    refine ⟨List.nodup_range', show ([1, 0] : List Nat).Nodup by decide, ?_⟩
    intro page listed head first
    have above := (List.mem_range'_1.mp listed).1
    simp only [List.map_cons, List.map_nil, List.mem_cons, List.not_mem_nil, or_false] at first
    omega
  · intro block member
    cases List.mem_append.mp member with
    | inl page =>
        have listed : block.1 ∈ (kvPageBlocks env 2 (index.sortedEntries.map Prod.snd)).map Prod.fst :=
          List.mem_map_of_mem page
        rw [slots] at listed
        have below := (List.mem_range'_1.mp listed).2
        rw [slotsPerRegion]
        exact ⟨by omega, length_kv_page_blocks env _ 2 block page⟩
    | inr head =>
        cases List.mem_cons.mp head with
        | inl bucket =>
            rw [bucket]
            exact ⟨show 1 < 64 by decide, length_sealed _ _ _⟩
        | inr directory =>
            rw [List.mem_singleton.mp directory]
            exact ⟨show 0 < 64 by decide, length_sealed _ _ _⟩

/-- An equality index that was flushed is loaded again. Each of its blocks was written inside the
region in a slot of its own. -/
theorem kv_flush_round_trip (aligned : blockSize ∣ offset)
    (low : offset + regionSize ≤ 2 ^ 32 * blockSize) (d after : Device)
    (ok : index.flushToRegion env offset d = (.ok (), after)) :
    KvIndex.loadFromRegion env after offset = .ok index ∧
      ChangesWithin offset regionSize d after ∧
      writeSlots offset (kvBlocks env index offset) d = (.ok (), after) ∧
      ((kvBlocks env index offset).map Prod.fst).Nodup ∧
      ∀ block ∈ kvBlocks env index offset,
        block.1 < slotsPerRegion ∧ block.2.length = blockSize := by
  obtain ⟨few, middle, late, pages, bucket, directory⟩ :=
    kv_flush_steps env index offset narrow d after ok
  obtain ⟨changes, loads⟩ := kv_index_read_back env index offset narrow aligned low d after ok
  have pageBlocks := kv_page_blocks_written env offset index.sortedEntries narrow
    (sorted_keys_nodup index) 2 [] _ d middle (by rw [kvBucketMaxEntries, List.length_nil]; omega)
    (fun entry member => absurd member List.not_mem_nil) pages
  have heads : writeSlots offset
      [(1, sealed env.crc KvBucketBlock.body
          (KvBucketBlock.filled (kvPlaced offset 2 index.sortedEntries))),
        (0, sealed env.crc KvDirectoryBlock.body
          (KvDirectoryBlock.single (BlockRef.at_ (offset + 1 * blockSize))))] middle =
      (.ok (), after) := by
    have start : offset + 0 * blockSize = offset := by rw [Nat.zero_mul, Nat.add_zero]
    apply (DeviceM.bind_of_ok _ _ _ _ _ (DeviceM.map_error_ok _ _ _ _ _ bucket)).trans
    rw [writeSlots, start]
    exact (DeviceM.bind_of_ok _ _ _ _ _ (DeviceM.map_error_ok _ _ _ _ _ directory)).trans rfl
  have apart := kv_blocks_apart env index offset few
  exact ⟨loads after (agrees_refl _ _ _), changes,
    write_slots_append offset _ _ _ _ _ pageBlocks heads, apart.1, apart.2⟩

end

def sampleKvEnv : KvRegionEnv := { crc := crc32c, roaring := sampleRoaring }

def sampleKv : KvIndex := KvIndex.new.insert (fun _ => 0xe867eb814244cc3e) 3 (.int 8) 5

private theorem sample_kv_sorted : sampleKv.sortedEntries = [((3, 0xe867eb814244cc3e), {5})] := by
  have sets : sampleKv.entries.sets = @ofEntries _ _ kvOrder [((3, 0xe867eb814244cc3e), {5})] := rfl
  rw [KvIndex.sortedEntries, sets]
  apply @to_sorted_of_entries _ _ kvOrder
  exact List.pairwise_singleton _ _

theorem sample_kv_round_trip :
    KvIndex.loadFromRegion sampleKvEnv (sampleKv.flushToRegion sampleKvEnv 0 emptyDevice).2 0 =
      .ok sampleKv := by
  have flushed : (sampleKv.flushToRegion sampleKvEnv 0 emptyDevice).1 = .ok () := by
    rw [KvIndex.flushToRegion, sample_kv_sorted]
    decide +kernel
  apply (kv_flush_round_trip sampleKvEnv sampleKv 0 ?_ (Nat.dvd_zero _) (by decide) emptyDevice _
    (DeviceM.ok_of_fst _ _ _ flushed)).1
  intro entry member
  rw [sample_kv_sorted] at member
  rw [List.mem_singleton.mp member]
  decide

end Mimisbrunnr.Index
