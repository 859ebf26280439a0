import Mimisbrunnr.Index.TagRegion
import Mimisbrunnr.Storage.Completion
import Mimisbrunnr.Storage.Slots

/-!
# The tag index is read back

A flush that succeeds writes to consecutive slots of the bitmap area and to the
directory region only, and from both the index is read back.
-/

namespace Mimisbrunnr.Index

set_option autoImplicit false

open Mimisbrunnr.Lib.ByteStore
open Mimisbrunnr.Lib.FiniteMap
open Mimisbrunnr.Lib.Layout
open Mimisbrunnr.Lib.SlotChains
open Mimisbrunnr.Lib.Vec
open Mimisbrunnr.Storage
open Mimisbrunnr.Types

private theorem flatten_page_chunks (bytes : List UInt8) : (pageChunks bytes).flatten = bytes := by
  unfold pageChunks
  split
  · next none => rw [none]; rfl
  · exact flatten_chunks _ (by decide) bytes

private theorem length_of_mem_page_chunks (bytes chunk : List UInt8)
    (member : chunk ∈ pageChunks bytes) :
    chunk.length ≤ tagBitmapPageMaxBytes := by
  unfold pageChunks at member
  split at member
  · rw [List.mem_singleton.mp member]
    exact Nat.zero_le _
  · exact length_of_mem_chunks _ bytes chunk member

theorem page_chunks_ne_nil (bytes : List UInt8) : pageChunks bytes ≠ [] := by
  unfold pageChunks
  split
  · simp
  · next some_bytes =>
      intro none
      have whole := flatten_chunks tagBitmapPageMaxBytes (by decide) bytes
      rw [none] at whole
      exact some_bytes whole.symm

/-- A page lies in a slot of the area and leads to the next slot, or is the last of its chain. -/
def PageAt (crc : Crc) (area : Nat) (d : Device) (slot : Nat) (link : Link (List UInt8)) : Prop :=
  link.content.length ≤ tagBitmapPageMaxBytes ∧
    TagBitmapPage.read crc d (area + slot * blockSize) =
      .ok (.fromBytesChunk link.content
        (if link.last then BlockRef.zero else BlockRef.at_ (area + (slot + 1) * blockSize)))

section

variable (crc : Crc) (area : Nat)

theorem page_local : SlotLocal (PageAt crc area) area blockSize := by
  intro d e slot link here page
  refine ⟨page.1, ?_⟩
  rw [TagBitmapPage.read_agrees crc _ here]
  exact page.2

/-- A chain lies in its slots once it was written. -/
theorem chunks_written (chunks : List (List UInt8))
    (fit : ∀ chunk ∈ chunks, chunk.length ≤ tagBitmapPageMaxBytes) :
    ∀ slot head d after, writeChunks crc area slot chunks d = (.ok head, after) →
      head = (if chunks.isEmpty then BlockRef.zero else BlockRef.at_ (area + slot * blockSize)) ∧
        ChangesWithin (area + slot * blockSize) (chunks.length * blockSize) d after ∧
        Laid (PageAt crc area after) slot (chain chunks) := by
  induction chunks with
  | nil =>
      intro slot head d after ok
      obtain ⟨same, unchanged⟩ := DeviceM.pure_ok _ _ _ _ ok
      subst same
      subst unchanged
      exact ⟨rfl, changes_within_refl _ _ _, laid_nil slot⟩
  | cons chunk rest ih =>
      intro slot head d after ok
      obtain ⟨link, middle, later, ok⟩ := DeviceM.bind_ok _ _ _ _ _ ok
      obtain ⟨⟨⟩, last, page, ok⟩ := DeviceM.bind_ok _ _ _ _ _ ok
      obtain ⟨same, unchanged⟩ := DeviceM.pure_ok _ _ _ _ ok
      subst same
      subst unchanged
      obtain ⟨next, tailChanges, tailLaid⟩ :=
        ih (fun other member => fit other (List.mem_cons_of_mem chunk member)) _ _ _ _ later
      have first := TagBitmapPage.page_read_back crc chunk link _ _ _
        (DeviceM.map_error_ok _ _ _ _ _ page)
      have kept : AgreesOn (area + (slot + 1) * blockSize) ((chain rest).length * blockSize)
          middle last :=
        agrees_of_apart first.1 (by unfold Apart; simp only [blockSize]; omega)
      refine ⟨rfl, ?_, ?_⟩
      · rw [List.length_cons]
        exact changes_within_trans
          (changes_within_mono tailChanges (by simp only [blockSize]; omega)
            (by simp only [blockSize]; omega))
          (changes_within_mono first.1 (Nat.le_refl _) (by simp only [blockSize]; omega))
      · rw [chain, laid_cons]
        refine ⟨⟨fit chunk List.mem_cons_self, ?_⟩, (page_local crc area).agree _ _ tailLaid kept⟩
        rw [first.2 last (agrees_refl _ _ _), next]

private theorem chunks_failed (chunks : List (List UInt8)) :
    ∀ slot err d after, writeChunks crc area slot chunks d = (.error err, after) →
      err = .page .io := by
  induction chunks with
  | nil =>
      intro slot err d after failed
      cases failed
  | cons chunk rest ih =>
      intro slot err d after failed
      cases DeviceM.bind_error _ _ _ _ _ failed with
      | inl later => exact ih _ _ _ _ later
      | inr behind =>
          obtain ⟨next, middle, -, failed⟩ := behind
          cases DeviceM.bind_error _ _ _ _ _ failed with
          | inl page =>
              obtain ⟨inner, stopped, same⟩ := DeviceM.map_error_failed _ _ _ _ _ page
              rw [same, TagBitmapPage.write_failed crc _ _ _ _ _ stopped]
          | inr done =>
              obtain ⟨_, _, -, returned⟩ := done
              cases returned

theorem offset_of_page (aligned : blockSize ∣ area) (slot count : Nat) (some_slot : 0 < count)
    (low : area + (slot + count) * blockSize ≤ 2 ^ 32 * blockSize) :
    (BlockRef.at_ (area + slot * blockSize)).offset = area + slot * blockSize := by
  apply BlockRef.offset_at
  · exact Nat.dvd_add aligned (Nat.dvd_mul_left _ _)
  · simp only [blockSize] at low ⊢
    omega

/-- A chain is read through the slots from its first to the end. -/
theorem read_chain (aligned : blockSize ∣ area) (d : Device) (links : List (Link (List UInt8))) :
    ∀ slot, Laid (PageAt crc area d) slot links → Closed links → links ≠ [] →
      area + (slot + links.length) * blockSize ≤ 2 ^ 32 * blockSize →
      ∀ fuel, links.length < fuel →
        readChunks crc d fuel (BlockRef.at_ (area + slot * blockSize)) =
          some (.ok (follow links).flatten) := by
  induction links with
  | nil =>
      intro slot _ _ some_link
      exact absurd rfl some_link
  | cons link rest ih =>
      intro slot laid closed _ low fuel enough
      obtain ⟨here, behind⟩ := (laid_cons slot link rest).mp laid
      obtain ⟨more, rfl⟩ := Nat.exists_eq_succ_of_ne_zero (Nat.ne_of_gt (Nat.zero_lt_of_lt enough))
      rw [List.length_cons] at low enough
      have place := offset_of_page area aligned slot (rest.length + 1) (Nat.succ_pos _) low
      rw [readChunks, if_neg (BlockRef.at_ne_zero _), place, here.2]
      simp only [TagBitmapPage.bitmap_slice_chunk _ _ here.1]
      cases last : link.last with
      | true =>
          obtain ⟨less, rfl⟩ := Nat.exists_eq_succ_of_ne_zero (show more ≠ 0 by omega)
          simp [follow, last, TagBitmapPage.fromBytesChunk, readChunks, Except.map]
      | false =>
          obtain ⟨some_link, ended⟩ := closed_rest link rest closed last
          have found := ih (slot + 1) behind ended some_link
            (by rw [show slot + 1 + rest.length = slot + (rest.length + 1) by omega]; exact low)
            more (by omega)
          simp [follow, last, TagBitmapPage.fromBytesChunk, found, Except.map]

/-- What writing the chain of a bitmap has done. -/
theorem bitmap_chain_written (roaring : Roaring) (cap slot next : Nat) (bitmap : Finset Nat)
    (head : BlockRef) (d after : Device)
    (ok : writeBitmapChain crc roaring area cap slot bitmap d = (.ok (head, next), after)) :
    head = BlockRef.at_ (area + slot * blockSize) ∧
      next = slot + (pageChunks (roaring.serialise bitmap)).length ∧ next ≤ cap ∧
      ChangesWithin (area + slot * blockSize)
        ((pageChunks (roaring.serialise bitmap)).length * blockSize) d after ∧
      Laid (PageAt crc area after) slot (chain (pageChunks (roaring.serialise bitmap))) := by
  unfold writeBitmapChain at ok
  split at ok
  · cases ok
  · next fits =>
      obtain ⟨first, middle, written, ok⟩ := DeviceM.bind_ok _ _ _ _ _ ok
      obtain ⟨same, unchanged⟩ := DeviceM.pure_ok _ _ _ _ ok
      subst unchanged
      cases same
      obtain ⟨place, changes, laid⟩ := chunks_written crc area _
        (length_of_mem_page_chunks (roaring.serialise bitmap)) _ _ _ _ written
      rw [List.isEmpty_eq_false_iff.mpr (page_chunks_ne_nil _)] at place
      exact ⟨place, rfl, Nat.le_of_not_lt fits, changes, laid⟩

private theorem bitmap_chain_failed (roaring : Roaring) (cap slot : Nat) (bitmap : Finset Nat)
    (err : IndexError) (d after : Device)
    (failed : writeBitmapChain crc roaring area cap slot bitmap d = (.error err, after))
    (refused : err ≠ .page .io) :
    cap < slot + (pageChunks (roaring.serialise bitmap)).length ∧ after = d := by
  unfold writeBitmapChain at failed
  split at failed
  · next full =>
      cases failed
      exact ⟨full, rfl⟩
  · cases DeviceM.bind_error _ _ _ _ _ failed with
    | inl chunks => exact absurd (chunks_failed crc area _ _ _ _ _ chunks) refused
    | inr done =>
        obtain ⟨_, _, -, returned⟩ := done
        cases returned

end

theorem check_simple_ok (stores : List (TagId × TagStore)) (ok : checkSimple stores = .ok ()) :
    ∀ entry ∈ stores, entry.2 = .simple entry.2.members := by
  induction stores with
  | nil =>
      intro entry member
      exact absurd member List.not_mem_nil
  | cons first rest ih =>
      obtain ⟨tag, store⟩ := first
      intro entry member
      cases store with
      | simple set =>
          cases List.mem_cons.mp member with
          | inl same => rw [same]; rfl
          | inr later => exact ih ok entry later
      | ordered set sequence => cases ok
      | ranked set scores => cases ok

/-- The slots of the stores. -/
def storePages (roaring : Roaring) : List (TagId × TagStore) → List (Link (List UInt8))
  | [] => []
  | (_, store) :: rest =>
      chain (pageChunks (roaring.serialise store.members)) ++ storePages roaring rest

/-- The directory entries of stores whose slots start at a given one. -/
def storeLeaves (roaring : Roaring) (area : Nat) :
    Nat → List (TagId × TagStore) → List (TagIndexKey × TagIndexValue)
  | _, [] => []
  | slot, (tag, store) :: rest =>
      ({ tagId := UInt32.ofNat tag, snapshot := 0 },
        { lastModifyLsn := 0
          storeRoot := BlockRef.at_ (area + slot * blockSize)
          cardinality := UInt32.ofNat store.members.card
          generation := 1
          storeKind := 0
          pad := List.Vector.replicate 7 0 }) ::
        storeLeaves roaring area (slot + (pageChunks (roaring.serialise store.members)).length) rest

theorem keys_store_leaves (roaring : Roaring) (area : Nat) (stores : List (TagId × TagStore)) :
    ∀ slot, (storeLeaves roaring area slot stores).map Prod.fst =
      stores.map fun entry => ⟨UInt32.ofNat entry.1, 0⟩ := by
  induction stores with
  | nil =>
      intro slot
      rfl
  | cons entry rest ih =>
      intro slot
      rw [storeLeaves, List.map_cons, List.map_cons, ih]

private theorem length_le_store_pages (roaring : Roaring) (stores : List (TagId × TagStore)) :
    stores.length ≤ (storePages roaring stores).length := by
  induction stores with
  | nil => exact Nat.le_refl 0
  | cons entry rest ih =>
      have some_chunk : 0 < (pageChunks (roaring.serialise entry.2.members)).length :=
        List.length_pos_of_ne_nil (page_chunks_ne_nil _)
      rw [storePages, List.length_append, length_chain, List.length_cons]
      omega

theorem closed_store_pages (roaring : Roaring) (stores : List (TagId × TagStore)) :
    Closed (storePages roaring stores) := by
  induction stores with
  | nil => exact closed_nil
  | cons entry rest ih => exact closed_append _ _ (closed_chain _) ih

/-- The slots of the stores in front of the first that is refused. -/
def writtenPages (roaring : Roaring) (cap : Nat) :
    Nat → List (TagId × TagStore) → List (Link (List UInt8))
  | _, [] => []
  | slot, (_, store) :: rest =>
      let pages := chain (pageChunks (roaring.serialise store.members))
      if 2 ^ 32 ≤ store.members.card then []
      else if cap < slot + pages.length then []
      else pages ++ writtenPages roaring cap (slot + pages.length) rest

theorem closed_written_pages (roaring : Roaring) (cap : Nat) (stores : List (TagId × TagStore)) :
    ∀ slot, Closed (writtenPages roaring cap slot stores) := by
  induction stores with
  | nil =>
      intro slot
      exact closed_nil
  | cons entry rest ih =>
      intro slot
      simp only [writtenPages]
      split
      · exact closed_nil
      · split
        · exact closed_nil
        · exact closed_append _ _ (closed_chain _) (ih _)

/-- The stores lie in their slots as far as none is refused; the directory entries are those of
all stores. -/
theorem stores_written (crc : Crc) (roaring : Roaring) (area cap : Nat)
    (stores : List (TagId × TagStore)) :
    ∀ slot result d after, slot ≤ cap → (∀ err, result = .error err → err ≠ .page .io) →
      writeStores crc roaring area cap slot stores d = (result, after) →
      slot + (writtenPages roaring cap slot stores).length ≤ cap ∧
        ChangesWithin (area + slot * blockSize)
          ((writtenPages roaring cap slot stores).length * blockSize) d after ∧
        Laid (PageAt crc area after) slot (writtenPages roaring cap slot stores) ∧
        ∀ leaves next, result = .ok (leaves, next) →
          writtenPages roaring cap slot stores = storePages roaring stores ∧
            leaves = storeLeaves roaring area slot stores ∧
            next = slot + (storePages roaring stores).length := by
  induction stores with
  | nil =>
      intro slot result d after inside _ ran
      cases ran
      refine ⟨inside, changes_within_refl _ _ _, laid_nil slot, ?_⟩
      intro leaves next same
      cases same
      exact ⟨rfl, rfl, rfl⟩
  | cons entry rest ih =>
      obtain ⟨tag, store⟩ := entry
      intro slot result d after inside sound ran
      simp only [writtenPages]
      unfold writeStores at ran
      dsimp only at ran
      split at ran
      · next many =>
          cases ran
          rw [if_pos many]
          refine ⟨inside, changes_within_refl _ _ _, laid_nil slot, ?_⟩
          intro leaves next same
          cases same
      · next few =>
          rw [if_neg few, length_chain]
          cases DeviceM.bind_cases _ _ _ _ _ ran with
          | inl stopped =>
              obtain ⟨err, failed, same⟩ := stopped
              obtain ⟨full, unchanged⟩ := bitmap_chain_failed crc area roaring cap slot _ err _ _
                failed (sound err same)
              rw [if_pos full, unchanged]
              refine ⟨inside, changes_within_refl _ _ _, laid_nil slot, ?_⟩
              intro leaves next returned
              rw [same] at returned
              cases returned
          | inr went =>
              obtain ⟨⟨head, middleSlot⟩, middle, written, ran⟩ := went
              obtain ⟨place, moved, below, firstChanges, firstLaid⟩ :=
                bitmap_chain_written crc area roaring cap slot middleSlot store.members head _ _
                  written
              have fits : ¬ cap < slot + (pageChunks (roaring.serialise store.members)).length := by
                omega
              rw [if_neg fits]
              let key : TagIndexKey := { tagId := UInt32.ofNat tag, snapshot := 0 }
              let value : TagIndexValue :=
                { lastModifyLsn := 0
                  storeRoot := head
                  cardinality := UInt32.ofNat store.members.card
                  generation := 1
                  storeKind := 0
                  pad := List.Vector.replicate 7 0 }
              obtain ⟨outcome, others, same⟩ := DeviceM.bind_pure _
                (fun pair : List (TagIndexKey × TagIndexValue) × Nat => ((key, value) :: pair.1, pair.2))
                _ _ _ ran
              obtain ⟨within, restChanges, restLaid, restDone⟩ := ih middleSlot outcome middle after
                below (fun err failed => sound err (by rw [same, failed]; rfl)) others
              rw [moved] at within restChanges restLaid restDone
              rw [List.length_append, length_chain]
              refine ⟨by omega, ?_, ?_, ?_⟩
              · exact changes_within_trans
                  (changes_within_mono firstChanges (Nat.le_refl _)
                    (by simp only [blockSize]; omega))
                  (changes_within_mono restChanges (by simp only [blockSize]; omega)
                    (by simp only [blockSize]; omega))
              · rw [laid_append, length_chain]
                refine ⟨(page_local crc area).agree _ _ firstLaid ?_, restLaid⟩
                rw [length_chain]
                exact agrees_of_apart restChanges (by unfold Apart; simp only [blockSize]; omega)
              · intro leaves next returned
                cases outcome with
                | error err =>
                    rw [same] at returned
                    cases returned
                | ok rests =>
                    rw [same] at returned
                    cases returned
                    obtain ⟨all, restsAre, ends⟩ := restDone rests.1 rests.2 rfl
                    rw [all, restsAre, ends, storePages, List.length_append, length_chain,
                      Nat.add_assoc, storeLeaves, ← place]
                    exact ⟨rfl, rfl, rfl⟩

def decodeChain (roaring : Roaring) (bytes : List UInt8) : Except String (Finset Nat) :=
  if bytes = [] then .ok ∅ else roaring.deserialise bytes

/-- The stores as they are found in slots, which need not be their own. -/
def rereadStores (roaring : Roaring) :
    List (Link (List UInt8)) → List (TagId × TagStore) → Option (List (TagId × TagStore))
  | _, [] => some []
  | links, (tag, store) :: rest =>
      match decodeChain roaring (follow links).flatten with
      | .error _ => none
      | .ok bitmap =>
          (rereadStores roaring
            (links.drop (pageChunks (roaring.serialise store.members)).length) rest).map
            ((tag, .simple bitmap) :: ·)

private theorem keys_reread_stores (roaring : Roaring) (stores : List (TagId × TagStore)) :
    ∀ links found, rereadStores roaring links stores = some found →
      found.map Prod.fst = stores.map Prod.fst := by
  induction stores with
  | nil =>
      intro links found read
      cases read
      rfl
  | cons entry rest ih =>
      intro links found read
      rw [rereadStores] at read
      split at read
      · cases read
      · obtain ⟨later, behind, same⟩ := Option.map_eq_some_iff.mp read
        rw [← same, List.map_cons, List.map_cons, ih _ _ behind]

theorem reread_own_stores (roaring : Roaring) (stores : List (TagId × TagStore))
    (simple : ∀ entry ∈ stores, entry.2 = .simple entry.2.members) :
    rereadStores roaring (storePages roaring stores) stores = some stores := by
  induction stores with
  | nil => rfl
  | cons entry rest ih =>
      have behind := ih fun other member => simple other (List.mem_cons_of_mem entry member)
      have content := simple entry List.mem_cons_self
      rw [rereadStores, storePages, follow_chain _ _ (page_chunks_ne_nil _), flatten_page_chunks,
        decodeChain, if_neg (roaring.cookie _), roaring.back]
      dsimp only
      rw [List.drop_left' (length_chain _), behind, ← content]
      rfl

section

variable (env : TagRegionEnv) (area : Nat) (aligned : blockSize ∣ area) (d : Device)

include aligned

private theorem read_chain_bitmap (slot : Nat) (links : List (Link (List UInt8)))
    (laid : Laid (PageAt env.crc area d) slot links) (closed : Closed links)
    (some_link : links ≠ []) (low : area + (slot + links.length) * blockSize ≤ 2 ^ 32 * blockSize)
    (fuel : Nat) (enough : links.length < fuel) :
    readBitmapChain env.crc env.roaring d fuel (BlockRef.at_ (area + slot * blockSize)) =
      some ((decodeChain env.roaring (follow links).flatten).mapError .roaring) := by
  rw [readBitmapChain, read_chain env.crc area aligned d links slot laid closed some_link low fuel
    enough]
  simp only [Option.map_some, Except.bind, decodeChain]
  split
  · rfl
  · rfl

/-- What the directory entries lead to, whatever lies in the slots. -/
theorem read_store_leaves (stores : List (TagId × TagStore))
    (narrow : ∀ entry ∈ stores, entry.1 < 2 ^ 32) :
    ∀ slot links, Laid (PageAt env.crc area d) slot links → Closed links →
      (storePages env.roaring stores).length ≤ links.length →
      area + (slot + links.length) * blockSize ≤ 2 ^ 32 * blockSize →
      ∀ fuel, links.length < fuel → ∀ found,
        match rereadStores env.roaring links stores with
        | some list =>
            TagIndex.fromLeafEntries env d fuel (storeLeaves env.roaring area slot stores) found =
              some (.ok ⟨list.foldl (fun m entry => m.insert entry.1 entry.2) found⟩)
        | none => ∃ err,
            TagIndex.fromLeafEntries env d fuel (storeLeaves env.roaring area slot stores) found =
              some (.error err) := by
  induction stores with
  | nil =>
      intro slot links _ _ _ _ fuel _ found
      rfl
  | cons entry rest ih =>
      obtain ⟨tag, store⟩ := entry
      intro slot links laid closed room low fuel enough found
      rw [storePages, List.length_append, length_chain] at room
      have some_chunk : 0 < (pageChunks (env.roaring.serialise store.members)).length :=
        List.length_pos_of_ne_nil (page_chunks_ne_nil _)
      have some_link : links ≠ [] := List.ne_nil_of_length_pos (by omega)
      have chainHere := read_chain_bitmap env area aligned d slot links laid closed some_link low
        fuel enough
      have number : (UInt32.ofNat tag).toNat = tag := by
        rw [UInt32.toNat_ofNat']
        exact Nat.mod_eq_of_lt (narrow _ List.mem_cons_self)
      rw [rereadStores, storeLeaves, TagIndex.fromLeafEntries, if_neg (by simp), chainHere]
      cases decoded : decodeChain env.roaring (follow links).flatten with
      | error err => exact ⟨_, rfl⟩
      | ok bitmap =>
          have behind := ih (fun other member => narrow other (List.mem_cons_of_mem _ member)) _ _
            (laid_drop slot (pageChunks (env.roaring.serialise store.members)).length links laid)
            (closed_drop links _ closed) (by rw [List.length_drop]; omega)
            (by rw [List.length_drop, Nat.add_assoc, Nat.add_sub_cancel' (by omega)]; exact low)
            fuel (by rw [List.length_drop]; omega) (found.insert tag (.simple bitmap))
          cases later : rereadStores env.roaring
              (links.drop (pageChunks (env.roaring.serialise store.members)).length) rest with
          | none =>
              rw [later] at behind
              simp only [Except.mapError, number, Option.map_none]
              exact behind
          | some list =>
              rw [later] at behind
              simp only [Except.mapError, number, Option.map_some, List.foldl_cons]
              exact behind

end

private theorem of_pod_back {ν : Type} (layout : Pod ν) (value : ν) :
    (ValueBytes.ofPod layout).fromBytes ((ValueBytes.ofPod layout).toBytes value) = value := by
  simp only [ValueBytes.ofPod]
  exact Pod.of_bytes_take layout value _

/-- What a flush that succeeds has done. -/
theorem tag_flush_written (env : TagRegionEnv) (index : TagIndex)
    (narrow : ∀ entry ∈ toSorted index.stores, entry.1 < 2 ^ 32)
    (dirOffset area cap pages : Nat) (d after : Device)
    (ok : index.flushToRegion env dirOffset area cap d = (.ok pages, after)) :
    checkSimple (toSorted index.stores) = .ok () ∧
      pages = (storePages env.roaring (toSorted index.stores)).length ∧ pages ≤ cap ∧ ∃ middle,
        ChangesWithin area (pages * blockSize) d middle ∧
        Laid (PageAt env.crc area middle) 0 (storePages env.roaring (toSorted index.stores)) ∧
        ChangesWithin dirOffset regionSize middle after ∧
        ∀ e, AgreesOn dirOffset regionSize after e →
          loadTable env.crc env.codec .tagDirectory e dirOffset =
            .ok (storeLeaves env.roaring area 0 (toSorted index.stores)) := by
  obtain ⟨⟨⟩, same, lifted, ok⟩ := DeviceM.bind_ok _ _ _ _ _ ok
  obtain ⟨checked, unchanged⟩ := DeviceM.lift_ok _ _ _ _ lifted
  subst unchanged
  obtain ⟨⟨leaves, slots⟩, middle, written, ok⟩ := DeviceM.bind_ok _ _ _ _ _ ok
  obtain ⟨⟨⟩, last, directory, ok⟩ := DeviceM.bind_ok _ _ _ _ _ ok
  obtain ⟨same, unchanged⟩ := DeviceM.pure_ok _ _ _ _ ok
  subst same
  subst unchanged
  obtain ⟨inside, changes, laid, done⟩ := stores_written env.crc env.roaring area cap
    (toSorted index.stores) 0 _ _ _ (Nat.zero_le _) (fun err same => by cases same) written
  obtain ⟨all, leavesAre, ends⟩ := done leaves slots rfl
  rw [Nat.zero_add] at ends inside
  rw [all, ← ends] at inside
  rw [all, ← ends, Nat.zero_mul, Nat.add_zero] at changes
  rw [all] at laid
  subst leavesAre
  have increasing : ((storeLeaves env.roaring area 0 (toSorted index.stores)).map
      Prod.fst).Pairwise (· < ·) := by
    rw [keys_store_leaves, List.pairwise_map]
    have sorted := increasing_to_sorted index.stores
    rw [List.pairwise_map] at sorted
    apply sorted.imp_of_mem
    intro left right leftMember rightMember less
    have below := narrow right rightMember
    have keys : UInt32.ofNat left.1 < UInt32.ofNat right.1 := by
      rw [UInt32.lt_iff_toNat_lt, UInt32.toNat_ofNat', UInt32.toNat_ofNat',
        Nat.mod_eq_of_lt (Nat.lt_trans less below), Nat.mod_eq_of_lt below]
      exact less
    exact Prod.Lex.lt_iff.mpr (Or.inl keys)
  have table := packed_table_read_back env.crc _ TagIndexKey.packable_lawful _ _ _ _ _ _
    dirOffset _ _ (DeviceM.map_error_ok _ _ _ _ _ directory) increasing
    (fun _ _ => of_pod_back _ _) (fun entry _ => by
      show (TagIndexValue.layout.toBytes entry.2).length < 2 ^ 64
      rw [TagIndexValue.layout.length_to_bytes]
      decide) (fun _ entry _ => TagIndexValue.layout.length_to_bytes _)
  exact ⟨checked, ends, inside, middle, changes, laid, table.1, table.2⟩

/-- An index is loaded from its directory just when its stores are found in the slots. -/
theorem tag_index_loads_iff (env : TagRegionEnv) (index : TagIndex)
    (narrow : ∀ entry ∈ toSorted index.stores, entry.1 < 2 ^ 32)
    (dirOffset area : Nat) (aligned : blockSize ∣ area) (d : Device)
    (directory : loadTable env.crc env.codec .tagDirectory d dirOffset =
      .ok (storeLeaves env.roaring area 0 (toSorted index.stores)))
    (links : List (Link (List UInt8))) (laid : Laid (PageAt env.crc area d) 0 links)
    (closed : Closed links)
    (room : (storePages env.roaring (toSorted index.stores)).length ≤ links.length)
    (low : area + links.length * blockSize ≤ 2 ^ 32 * blockSize)
    (fuel : Nat) (enough : links.length < fuel) :
    TagIndex.loadFromRegion env fuel d dirOffset = some (.ok index) ↔
      rereadStores env.roaring links (toSorted index.stores) = some (toSorted index.stores) := by
  have found := read_store_leaves env area aligned d (toSorted index.stores) narrow 0 links laid
    closed room (by rw [Nat.zero_add]; exact low) fuel enough ∅
  rw [TagIndex.loadFromRegion, directory]
  cases read : rereadStores env.roaring links (toSorted index.stores) with
  | none =>
      rw [read] at found
      obtain ⟨err, lost⟩ := found
      dsimp only
      rw [lost]
      constructor
      · intro loaded
        cases loaded
      · intro same
        cases same
  | some list =>
      rw [read] at found
      dsimp only at found ⊢
      rw [found]
      have increasing : (list.map Prod.fst).Pairwise (· < ·) := by
        rw [keys_reread_stores _ _ _ _ read]
        exact increasing_to_sorted index.stores
      have whole : list.foldl (fun m entry => m.insert entry.1 entry.2) ∅ = ofEntries list := rfl
      rw [whole]
      constructor
      · intro loaded
        have same : ofEntries list = index.stores :=
          congrArg TagIndex.stores (Except.ok.inj (Option.some.inj loaded))
        rw [← same, to_sorted_of_entries list increasing]
      · intro same
        rw [Option.some.inj same, of_entries_to_sorted]

/-- The byte offsets of the pages that are read from a reference on. -/
def chainPages (crc : Crc) (d : Device) : Nat → BlockRef → List Nat
  | 0, _ => []
  | fuel + 1, current =>
      if current = BlockRef.zero then []
      else
        match TagBitmapPage.read crc d current.offset with
        | .error _ => []
        | .ok page => current.offset :: chainPages crc d fuel page.nextPage

/-- The pages of a chain that are found in consecutive slots. -/
theorem chain_pages_found (crc : Crc) (area : Nat) (aligned : blockSize ∣ area) (d : Device)
    (links : List (Link (List UInt8))) :
    ∀ slot, Laid (PageAt crc area d) slot links → Closed links → links ≠ [] →
      area + (slot + links.length) * blockSize ≤ 2 ^ 32 * blockSize →
      ∀ fuel, links.length < fuel →
        chainPages crc d fuel (BlockRef.at_ (area + slot * blockSize)) =
          (List.range' slot (follow links).length).map fun index => area + index * blockSize := by
  induction links with
  | nil =>
      intro slot _ _ some_link
      exact absurd rfl some_link
  | cons link rest ih =>
      intro slot laid closed _ low fuel enough
      obtain ⟨here, behind⟩ := (laid_cons slot link rest).mp laid
      obtain ⟨more, rfl⟩ := Nat.exists_eq_succ_of_ne_zero (Nat.ne_of_gt (Nat.zero_lt_of_lt enough))
      rw [List.length_cons] at low enough
      have place := offset_of_page area aligned slot (rest.length + 1) (Nat.succ_pos _) low
      rw [chainPages, if_neg (BlockRef.at_ne_zero _), place, here.2]
      dsimp only [TagBitmapPage.fromBytesChunk]
      cases last : link.last with
      | true =>
          obtain ⟨less, rfl⟩ := Nat.exists_eq_succ_of_ne_zero (show more ≠ 0 by omega)
          rw [if_pos rfl, chainPages, if_pos rfl, follow, last]
          rfl
      | false =>
          obtain ⟨some_link, ended⟩ := closed_rest link rest closed last
          have later := ih (slot + 1) behind ended some_link
            (by rw [show slot + 1 + rest.length = slot + (rest.length + 1) by omega]; exact low) more
            (by omega)
          rw [if_neg Bool.false_ne_true, later, follow, last, if_neg Bool.false_ne_true,
            List.length_cons, List.range'_succ, List.map_cons]

/-- The chains of different stores have no page in common. -/
theorem store_chains_apart (crc : Crc) (roaring : Roaring) (area : Nat)
    (aligned : blockSize ∣ area) (d : Device) (stores : List (TagId × TagStore)) :
    ∀ slot, Laid (PageAt crc area d) slot (storePages roaring stores) →
      area + (slot + (storePages roaring stores).length) * blockSize ≤ 2 ^ 32 * blockSize →
      ∀ fuel, (storePages roaring stores).length < fuel →
        ((storeLeaves roaring area slot stores).map fun leaf =>
            chainPages crc d fuel leaf.2.storeRoot).Pairwise List.Disjoint ∧
          ∀ leaf ∈ storeLeaves roaring area slot stores,
            ∀ page ∈ chainPages crc d fuel leaf.2.storeRoot, ∃ index,
              slot ≤ index ∧ index < slot + (storePages roaring stores).length ∧
                page = area + index * blockSize := by
  induction stores with
  | nil =>
      intro slot _ _ fuel _
      exact ⟨List.Pairwise.nil, fun leaf member => absurd member List.not_mem_nil⟩
  | cons entry rest ih =>
      obtain ⟨tag, store⟩ := entry
      intro slot laid low fuel enough
      have some_chunk := page_chunks_ne_nil (roaring.serialise store.members)
      have own : chainPages crc d fuel (BlockRef.at_ (area + slot * blockSize)) =
          (List.range' slot (pageChunks (roaring.serialise store.members)).length).map
            fun index => area + index * blockSize := by
        have found := chain_pages_found crc area aligned d (storePages roaring ((tag, store) :: rest))
          slot laid (closed_store_pages _ _) (by
            rw [storePages]
            apply List.ne_nil_of_length_pos
            rw [List.length_append, length_chain]
            have positive := List.length_pos_of_ne_nil some_chunk
            omega) low fuel enough
        rw [found, storePages, follow_chain _ _ some_chunk]
      rw [storePages, List.length_append, length_chain] at low enough ⊢
      rw [storePages, laid_append, length_chain] at laid
      obtain ⟨apart, inside⟩ := ih _ laid.2 (by rw [Nat.add_assoc]; exact low) fuel (by omega)
      have mine : ∀ page ∈ chainPages crc d fuel (BlockRef.at_ (area + slot * blockSize)),
          ∃ index, slot ≤ index ∧
            index < slot + (pageChunks (roaring.serialise store.members)).length ∧
            page = area + index * blockSize := by
        intro page member
        rw [own] at member
        obtain ⟨index, listed, same⟩ := List.mem_map.mp member
        have bounds := List.mem_range'_1.mp listed
        exact ⟨index, bounds.1, bounds.2, same.symm⟩
      rw [storeLeaves, List.map_cons, List.pairwise_cons]
      constructor
      · refine ⟨?_, apart⟩
        intro others member page first second
        obtain ⟨leaf, present, rfl⟩ := List.mem_map.mp member
        obtain ⟨left, -, below, leftPage⟩ := mine page first
        obtain ⟨right, above, -, rightPage⟩ := inside leaf present page second
        rw [leftPage] at rightPage
        simp only [blockSize] at rightPage
        omega
      · intro leaf member page listed
        cases List.mem_cons.mp member with
        | inl same =>
            rw [same] at listed
            obtain ⟨index, above, below, place⟩ := mine page listed
            exact ⟨index, above, by omega, place⟩
        | inr present =>
            obtain ⟨index, above, below, place⟩ := inside leaf present page listed
            exact ⟨index, by omega, by omega, place⟩

/-- A tag index that was flushed is read back where the bytes are the same. -/
theorem tag_index_read_back (env : TagRegionEnv) (index : TagIndex)
    (narrow : ∀ tag store, index.stores.lookup tag = some store → tag < 2 ^ 32)
    (dirOffset area cap pages : Nat) (aligned : blockSize ∣ area)
    (low : area + cap * blockSize ≤ 2 ^ 32 * blockSize) (d after : Device)
    (ok : index.flushToRegion env dirOffset area cap d = (.ok pages, after)) :
    pages ≤ cap ∧ ∃ middle,
      ChangesWithin area (pages * blockSize) d middle ∧
      ChangesWithin dirOffset regionSize middle after ∧
      ((toSorted index.stores).length ≤ pages) ∧
      ∀ e, AgreesOn area (pages * blockSize) middle e → AgreesOn dirOffset regionSize after e →
        ∀ fuel, cap < fuel → TagIndex.loadFromRegion env fuel e dirOffset = some (.ok index) := by
  have small : ∀ entry ∈ toSorted index.stores, entry.1 < 2 ^ 32 := by
    intro entry member
    exact narrow entry.1 entry.2 ((mem_to_sorted _ _ _).mp member)
  obtain ⟨checked, count, inside, middle, changes, laid, directoryChanges, back⟩ :=
    tag_flush_written env index small dirOffset area cap pages d after ok
  have enoughPages := length_le_store_pages env.roaring (toSorted index.stores)
  refine ⟨inside, middle, changes, directoryChanges, by omega, ?_⟩
  intro e areaHere directoryHere fuel enough
  have here : Laid (PageAt env.crc area e) 0 (storePages env.roaring (toSorted index.stores)) := by
    apply (page_local env.crc area).agree 0 _ laid
    rw [Nat.zero_mul, Nat.add_zero, ← count]
    exact areaHere
  apply (tag_index_loads_iff env index small dirOffset area aligned e (back e directoryHere) _ here
    (closed_store_pages _ _) (Nat.le_refl _) (by
      have bounded := Nat.mul_le_mul_right blockSize inside
      rw [count] at bounded
      omega) fuel (by omega)).mpr
  exact reread_own_stores env.roaring _ (check_simple_ok _ checked)

/-- A tag index that was flushed is loaded again. Only its slots of the area were written, and the
chains of its tags have no page in common. -/
theorem tag_flush_round_trip (env : TagRegionEnv) (index : TagIndex)
    (narrow : ∀ tag store, index.stores.lookup tag = some store → tag < 2 ^ 32)
    (dirOffset area cap pages : Nat) (aligned : blockSize ∣ area)
    (low : area + cap * blockSize ≤ 2 ^ 32 * blockSize)
    (apart : Apart dirOffset regionSize area (cap * blockSize)) (d after : Device)
    (ok : index.flushToRegion env dirOffset area cap d = (.ok pages, after)) (fuel : Nat)
    (enough : cap < fuel) :
    TagIndex.loadFromRegion env fuel after dirOffset = some (.ok index) ∧
      (∀ address, ¬ (area ≤ address ∧ address < area + pages * blockSize) →
        ¬ (dirOffset ≤ address ∧ address < dirOffset + regionSize) →
        after.bytes address = d.bytes address) ∧
      ∃ leaves, loadTable env.crc env.codec .tagDirectory after dirOffset = .ok leaves ∧
        leaves.map (fun leaf => leaf.1.tagId.toNat) = (toSorted index.stores).map Prod.fst ∧
        (leaves.map fun leaf => chainPages env.crc after fuel leaf.2.storeRoot).Pairwise
          List.Disjoint ∧
        ∀ leaf ∈ leaves, ∀ page ∈ chainPages env.crc after fuel leaf.2.storeRoot,
          ∃ slot, slot < pages ∧ page = area + slot * blockSize := by
  have small : ∀ entry ∈ toSorted index.stores, entry.1 < 2 ^ 32 := by
    intro entry member
    exact narrow entry.1 entry.2 ((mem_to_sorted _ _ _).mp member)
  obtain ⟨-, count, inside, middle, changes, laid, directoryChanges, back⟩ :=
    tag_flush_written env index small dirOffset area cap pages d after ok
  obtain ⟨-, other, otherChanges, otherDirectory, -, loads⟩ :=
    tag_index_read_back env index narrow dirOffset area cap pages aligned low d after ok
  have bounded := Nat.mul_le_mul_right blockSize inside
  have kept : ∀ {first : Device}, ChangesWithin dirOffset regionSize first after →
      AgreesOn area (pages * blockSize) first after := by
    intro first directory
    apply agrees_of_apart directory
    unfold Apart at apart ⊢
    omega
  have here : Laid (PageAt env.crc area after) 0 (storePages env.roaring (toSorted index.stores)) := by
    apply (page_local env.crc area).agree 0 _ laid
    rw [Nat.zero_mul, Nat.add_zero, ← count]
    exact kept directoryChanges
  have chains := store_chains_apart env.crc env.roaring area aligned after (toSorted index.stores) 0
    here (by rw [← count, Nat.zero_add]; omega) fuel (by omega)
  rw [Nat.zero_add, ← count] at chains
  refine ⟨loads after (kept otherDirectory) (agrees_refl _ _ _) fuel enough, ?_, _,
    back after (agrees_refl _ _ _), ?_, chains.1, ?_⟩
  · intro address outsideArea outsideDirectory
    rw [directoryChanges.outside address (by omega), changes.outside address (by omega)]
  · have keys := congrArg (List.map fun key : TagIndexKey => key.tagId.toNat)
      (keys_store_leaves env.roaring area (toSorted index.stores) 0)
    rw [List.map_map, List.map_map] at keys
    apply Eq.trans keys
    apply List.map_congr_left
    intro entry member
    show (UInt32.ofNat entry.1).toNat = entry.1
    rw [UInt32.toNat_ofNat']
    exact Nat.mod_eq_of_lt (small entry member)
  · intro leaf member page listed
    obtain ⟨slot, -, below, place⟩ := chains.2 leaf member page listed
    exact ⟨slot, below, place⟩

section

variable (crc : Crc) (roaring : Roaring) (area cap : Nat) {limit : Nat}

private theorem completes_chunks (chunks : List (List UInt8)) :
    ∀ slot, area + (slot + chunks.length) * blockSize ≤ limit →
      Completes limit (writeChunks crc area slot chunks) fun _ => True := by
  induction chunks with
  | nil => exact fun slot _ => completes_pure _ trivial
  | cons chunk rest ih =>
      intro slot inside
      rw [List.length_cons] at inside
      have later : area + (slot + 1 + rest.length) * blockSize ≤ limit := by
        rw [Nat.add_assoc slot 1, Nat.add_comm 1]
        exact inside
      apply completes_bind (fun _ => True) (ih (slot + 1) later)
      intro next _
      apply completes_bind fun _ => True
      · apply completes_map_error
        apply completes_map_error
        apply completes_write
        rw [length_sealed, TagBitmapPage.body_size]
        simp only [blockSize] at inside ⊢
        omega
      · exact fun _ _ => completes_pure _ trivial

private theorem completes_bitmap_chain (slot : Nat) (bitmap : Finset Nat)
    (fits : slot + (pageChunks (roaring.serialise bitmap)).length ≤ cap)
    (room : area + cap * blockSize ≤ limit) :
    Completes limit (writeBitmapChain crc roaring area cap slot bitmap)
      fun written => written = (BlockRef.at_ (area + slot * blockSize),
        slot + (pageChunks (roaring.serialise bitmap)).length) := by
  have inside := Nat.mul_le_mul_right blockSize fits
  have written : Completes limit (writeBitmapChain crc roaring area cap slot bitmap)
      fun _ => True := by
    unfold writeBitmapChain
    dsimp only
    rw [if_neg (Nat.not_lt.mpr fits)]
    apply completes_bind (fun _ => True) (completes_chunks crc area _ slot (by omega))
    exact fun _ _ => completes_pure _ trivial
  apply completes_ok written
  rintro ⟨head, next⟩ d after ok
  obtain ⟨place, ends, -⟩ := bitmap_chain_written crc area roaring cap slot next bitmap head d after ok
  rw [place, ends]

private theorem completes_stores (room : area + cap * blockSize ≤ limit)
    (stores : List (TagId × TagStore)) (few : ∀ entry ∈ stores, entry.2.members.card < 2 ^ 32) :
    ∀ slot, slot + (storePages roaring stores).length ≤ cap →
      Completes limit (writeStores crc roaring area cap slot stores)
        fun written => written =
          (storeLeaves roaring area slot stores, slot + (storePages roaring stores).length) := by
  induction stores with
  | nil => exact fun slot _ => completes_pure _ rfl
  | cons entry rest ih =>
      obtain ⟨tag, store⟩ := entry
      obtain ⟨first, others⟩ := List.forall_mem_cons.mp few
      intro slot fits
      rw [storePages, List.length_append, length_chain] at fits ⊢
      unfold writeStores
      dsimp only
      rw [if_neg (Nat.not_le.mpr first)]
      apply completes_bind _
        (completes_bitmap_chain crc roaring area cap slot store.members (by omega) room)
      rintro _ rfl
      apply completes_bind _ (ih others _ (by omega))
      rintro _ rfl
      apply completes_pure
      rw [storeLeaves, Nat.add_assoc]

end

/-- An index that fits its area is flushed. -/
theorem completes_tag_flush (env : TagRegionEnv) (index : TagIndex) (dirOffset area cap : Nat)
    {limit : Nat} (simple : checkSimple (toSorted index.stores) = .ok ())
    (few : ∀ entry ∈ toSorted index.stores, entry.2.members.card < 2 ^ 32)
    (fits : (storePages env.roaring (toSorted index.stores)).length ≤ cap)
    (encoded : ∃ payload,
      env.codec.encode (storeLeaves env.roaring area 0 (toSorted index.stores)) = .ok payload ∧
        blockSize + SortedRunHeader.layout.size + payload.length ≤ regionSize)
    (room : area + cap * blockSize ≤ limit) (directoryRoom : dirOffset + regionSize ≤ limit) :
    Completes limit (index.flushToRegion env dirOffset area cap)
      fun pages => pages = (storePages env.roaring (toSorted index.stores)).length := by
  unfold TagIndex.flushToRegion
  dsimp only
  apply completes_bind (fun _ => True) (completes_lift _ () simple trivial)
  intro _ _
  apply completes_bind _ (completes_stores env.crc env.roaring area cap room _ few 0 (by omega))
  rintro _ rfl
  apply completes_bind fun _ => True
  · apply completes_map_error
    exact completes_flush_table env.crc env.codec _ _ (fun _ => encoded) dirOffset directoryRoom
  · exact fun _ _ => completes_pure _ (Nat.zero_add _)

def tagsOf (stores : List (TagId × TagStore)) : TagIndex := { stores := ofEntries stores }

def sampleTagEnv : TagRegionEnv where
  crc := crc32c
  roaring := sampleRoaring
  cbor :=
    { encode _ := .error "unsupported"
      decode _ := .error "unsupported"
      decode_encode _ _ encoded := by cases encoded }

/-- One tag on a page, and one whose bitmap takes two. -/
def chainedStores : List (TagId × TagStore) := [(1, .simple {5}), (2, .simple (Finset.range 2100))]

private theorem length_page_chunks (bytes : List UInt8) (some_byte : bytes ≠ []) :
    (pageChunks bytes).length = (bytes.length + 4035) / 4036 := by
  rw [pageChunks, if_neg some_byte, chunks, length_pieces]
  rfl

private theorem length_five :
    (pageChunks (sampleRoaring.serialise (TagStore.simple {5}).members)).length = 1 := by
  decide +kernel

private theorem length_many : (pageChunks (sampleRoaring.serialise
    (TagStore.simple (Finset.range 2100)).members)).length = 2 := by
  have top : (Finset.range 2100).sup id < 2 ^ 16 := by
    rw [Finset.sup_lt_iff (by decide)]
    intro number member
    have below := Finset.mem_range.mp member
    dsimp only [id]
    omega
  have some_member : Finset.range 2100 ≠ ∅ := Finset.nonempty_range_iff.mpr (by decide) |>.ne_empty
  have length := length_sample_serialise (Finset.range 2100) some_member
    ⟨top, by rw [Finset.card_range]; decide⟩
  rw [Finset.card_range] at length
  rw [TagStore.members, length_page_chunks _ (sampleRoaring.cookie _), length]

private theorem length_pair_pages (roaring : Roaring) (first second : TagId × TagStore)
    (one two : Nat)
    (left : (pageChunks (roaring.serialise first.2.members)).length = one)
    (right : (pageChunks (roaring.serialise second.2.members)).length = two) :
    (storePages roaring [first, second]).length = one + two := by
  rw [storePages, storePages, storePages, List.length_append, List.length_append, length_chain,
    length_chain, left, right]
  rfl

/-- The directory of the two tags. -/
def chainedLeaves : List (TagIndexKey × TagIndexValue) :=
  [(⟨1, 0⟩,
      { lastModifyLsn := 0
        storeRoot := BlockRef.at_ regionSize
        cardinality := 1
        generation := 1
        storeKind := 0
        pad := List.Vector.replicate 7 0 }),
    (⟨2, 0⟩,
      { lastModifyLsn := 0
        storeRoot := BlockRef.at_ (regionSize + blockSize)
        cardinality := 2100
        generation := 1
        storeKind := 0
        pad := List.Vector.replicate 7 0 })]

private theorem chained_leaves :
    storeLeaves sampleRoaring regionSize 0 chainedStores = chainedLeaves := by
  have card : (TagStore.simple (Finset.range 2100)).members.card = 2100 := Finset.card_range 2100
  simp only [chainedStores, storeLeaves, length_five, card]
  rfl

private theorem chained_flushed : ∃ after,
    (tagsOf chainedStores).flushToRegion sampleTagEnv 0 regionSize 3 emptyDevice =
      (.ok 3, after) := by
  have listed : toSorted (tagsOf chainedStores).stores = chainedStores :=
    to_sorted_of_entries _ (by decide)
  have pages : (storePages sampleRoaring chainedStores).length = 3 :=
    length_pair_pages sampleRoaring _ _ 1 2 length_five length_many
  have few : ∀ entry ∈ chainedStores, entry.2.members.card < 2 ^ 32 := by
    intro entry member
    have card : (Finset.range 2100).card = 2100 := Finset.card_range 2100
    rcases List.mem_pair.mp member with rfl | rfl
    · decide
    · exact card.trans_lt (by decide)
  have roaring : sampleTagEnv.roaring = sampleRoaring := rfl
  have flushes := completes_tag_flush sampleTagEnv (tagsOf chainedStores) 0 regionSize 3
    (by rw [listed]; rfl) (by rw [listed]; exact few) (by rw [listed, roaring, pages])
    (encodes_short _ _ (by rw [listed, roaring, chained_leaves]; decide +kernel))
    (show regionSize + 3 * blockSize ≤ emptyDevice.capacity by decide) (by decide)
  rw [listed, roaring, pages] at flushes
  obtain ⟨_, after, flushed, rfl, -⟩ := flushes emptyDevice
    ⟨rfl, fun _ member => absurd member List.not_mem_nil⟩ (Nat.le_refl _)
  exact ⟨after, flushed⟩

theorem sample_tag_round_trip : ∃ after,
    (tagsOf chainedStores).flushToRegion sampleTagEnv 0 regionSize 3 emptyDevice = (.ok 3, after) ∧
      TagIndex.loadFromRegion sampleTagEnv 4 after 0 = some (.ok (tagsOf chainedStores)) := by
  obtain ⟨after, flushed⟩ := chained_flushed
  refine ⟨after, flushed, (tag_flush_round_trip sampleTagEnv (tagsOf chainedStores) ?_ 0 regionSize 3
    3 (by decide) (by decide) (by decide) emptyDevice after flushed 4 (by decide)).1⟩
  intro tag store found
  have member := (mem_to_sorted _ _ _).mpr found
  rw [tagsOf, to_sorted_of_entries _ (by decide)] at member
  rcases List.mem_pair.mp member with same | same
  all_goals
    cases same
    decide

end Mimisbrunnr.Index
