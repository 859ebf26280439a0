import Mimisbrunnr.Index.ForwardRegion
import Mimisbrunnr.Storage.Completion
import Mimisbrunnr.Storage.Slots

/-!
# The forward index is read back

A flush that succeeds writes to consecutive slots of the overflow area and to
the directory region only. From both every object gets its assertions back in
their order and with their origins, with zero for the value of an attribute.
-/

namespace Mimisbrunnr.Index

set_option autoImplicit false

open Mimisbrunnr.Lib.ByteStore
open Mimisbrunnr.Lib.FiniteMap
open Mimisbrunnr.Lib.Layout
open Mimisbrunnr.Lib.SlotChains
open Mimisbrunnr.Lib.Vec
open Mimisbrunnr.Storage
open Mimisbrunnr.Types

/-- What is left of an assertion on the device. -/
def storedAssertion : Assertion → Assertion
  | .tag tag => .tag tag
  | .attr key _ => .attr key (.int 0)
  | .relation predicate target => .relation predicate target

def storedEntry (entry : Assertion × TagOrigin) : Assertion × TagOrigin :=
  (storedAssertion entry.1, entry.2)

/-- The tag, key or predicate of an assertion. -/
def assertionTag : Assertion → TagId
  | .tag tag => tag
  | .attr key _ => key
  | .relation predicate _ => predicate

private theorem origin_of_from_logical (assertion : Assertion) (origin : TagOrigin)
    (valueHash : UInt64) :
    (PackedAssertion.fromLogical assertion origin valueHash).originOf = .ok origin := by
  cases assertion <;> cases origin <;> rfl

private theorem to_logical_from_logical (assertion : Assertion) (origin : TagOrigin)
    (valueHash : UInt64)
    (narrow : assertionTag assertion < 2 ^ 32) :
    (PackedAssertion.fromLogical assertion origin valueHash).toLogical none =
      .ok (storedAssertion assertion, origin) := by
  rw [PackedAssertion.toLogical, origin_of_from_logical]
  cases assertion with
  | tag tag =>
      have small : tag < 2 ^ 32 := narrow
      simp [PackedAssertion.fromLogical, packedAssertionKindTag, storedAssertion, bind, Except.bind]
      omega
  | attr key value =>
      have small : key < 2 ^ 32 := narrow
      simp [PackedAssertion.fromLogical, packedAssertionKindTag, packedAssertionKindAttr,
        storedAssertion, bind, Except.bind]
      omega
  | relation predicate target =>
      have small : predicate < 2 ^ 32 := narrow
      simp [PackedAssertion.fromLogical, packedAssertionKindTag, packedAssertionKindAttr,
        packedAssertionKindRelation, storedAssertion, bind, Except.bind]
      omega

private theorem logical_of_packed (hash : ValueHash) (assertions : List (Assertion × TagOrigin))
    (narrow : ∀ entry ∈ assertions, assertionTag entry.1 < 2 ^ 32) :
    ((packAssertions hash assertions).mapM fun assertion => assertion.toLogical none) =
      .ok (assertions.map storedEntry) := by
  induction assertions with
  | nil => rfl
  | cons entry assertions ih =>
      have rest := ih fun other member => narrow other (List.mem_cons_of_mem entry member)
      rw [packAssertions] at rest ⊢
      rw [List.map_cons, List.mapM_cons,
        to_logical_from_logical entry.1 entry.2 _ (narrow entry List.mem_cons_self), rest]
      rfl

theorem length_pack_assertions (hash : ValueHash) (assertions : List (Assertion × TagOrigin)) :
    (packAssertions hash assertions).length = assertions.length := by
  rw [packAssertions, List.length_map]

theorem length_overflow_image (entries : List PackedAssertion) (nextPage : BlockRef)
    (fits : entries.length ≤ forwardOverflowRegionCapacity) :
    (overflowImage entries nextPage).length = regionSize := by
  have header : BtreeNodeHeader.layout.size = 64 := rfl
  have assertion : PackedAssertion.layout.size = 16 := rfl
  have link : BlockRef.layout.size = 16 := rfl
  simp only [overflowImage, List.length_append, BtreeNodeHeader.layout.length_to_bytes,
    Pod.length_pack_all, List.length_replicate, BlockRef.layout.length_to_bytes, header, assertion,
    link, regionSize]
  rw [forwardOverflowRegionCapacity] at fits ⊢
  omega

private theorem overflow_header_parsed (entries : List PackedAssertion) (rest : List UInt8) :
    BtreeNodeHeader.parse (BtreeNodeHeader.layout.toBytes (overflowHeader entries) ++ rest) =
      .ok (overflowHeader entries) := by
  have length := BtreeNodeHeader.layout.length_to_bytes (overflowHeader entries)
  unfold BtreeNodeHeader.parse
  rw [if_neg (by rw [List.length_append, length]; omega)]
  simp only [BtreeNodeHeader.layout.of_bytes_take]
  rw [if_neg (by simp [overflowHeader, BtreeNodeHeader.new])]

private theorem overflow_region_changes (byteOffset : Nat) (entries : List PackedAssertion)
    (nextPage : BlockRef) (fits : entries.length ≤ forwardOverflowRegionCapacity)
    (d after : Device) (ok : writeOverflowRegion byteOffset entries nextPage d = (.ok (), after)) :
    ChangesWithin byteOffset regionSize d after := by
  have changes := changes_within_write _ _ _ _ (DeviceM.map_error_ok _ _ _ _ _ ok)
  rw [length_overflow_image entries nextPage fits] at changes
  exact changes

theorem overflow_chunks_ne_nil (packed : List PackedAssertion) (some_assertion : packed ≠ []) :
    chunks forwardOverflowRegionCapacity packed ≠ [] := by
  intro none
  have whole := flatten_chunks forwardOverflowRegionCapacity (by decide) packed
  rw [none] at whole
  exact some_assertion whole.symm

/-- A region that was written is read back where the bytes are the same. -/
theorem overflow_region_read_back (byteOffset : Nat) (entries : List PackedAssertion)
    (nextPage current : BlockRef) (place : current.offset = byteOffset)
    (fits : entries.length ≤ forwardOverflowRegionCapacity) (d after : Device)
    (ok : writeOverflowRegion byteOffset entries nextPage d = (.ok (), after)) :
    ChangesWithin byteOffset regionSize d after ∧
      ∀ e, AgreesOn byteOffset regionSize after e →
        readOverflowRegion e current = .ok (entries, nextPage) := by
  have done := DeviceM.map_error_ok _ _ _ _ _ ok
  have length := length_overflow_image entries nextPage fits
  have changes := changes_within_write _ _ _ _ done
  have stored := read_of_write _ _ _ _ done
  rw [length] at changes stored
  refine ⟨changes, ?_⟩
  intro e agrees
  have used : (overflowHeader entries).payloadUsed.toNat = entries.length * 16 := by
    show (UInt32.ofNat (entries.length * 16)).toNat = _
    rw [UInt32.toNat_ofNat']
    apply Nat.mod_eq_of_lt
    rw [forwardOverflowRegionCapacity] at fits
    omega
  have assertion : PackedAssertion.layout.size = 16 := rfl
  have body : (overflowImage entries nextPage).drop forwardOverflowEntriesOffset =
      PackedAssertion.layout.packAll entries ++
        (List.replicate ((forwardOverflowRegionCapacity - entries.length) *
          PackedAssertion.layout.size) 0 ++ BlockRef.layout.toBytes nextPage) := by
    rw [overflowImage, List.append_assoc, List.append_assoc]
    exact List.drop_left' (BtreeNodeHeader.layout.length_to_bytes _)
  have link : (overflowImage entries nextPage).drop forwardOverflowNextPageOffset =
      BlockRef.layout.toBytes nextPage := by
    apply List.drop_left'
    have whole := length
    rw [overflowImage, List.length_append, BlockRef.layout.length_to_bytes] at whole
    rw [forwardOverflowNextPageOffset]
    omega
  have header : BtreeNodeHeader.parse (overflowImage entries nextPage) =
      .ok (overflowHeader entries) := by
    rw [overflowImage, List.append_assoc, List.append_assoc]
    exact overflow_header_parsed entries _
  rw [readOverflowRegion, place, read_at_agrees agrees (Nat.le_refl _) (Nat.le_refl _),
    Device.read_at_ok _ _ _ stored.2, stored.1]
  simp only [Except.mapError, bind, Except.bind]
  rw [header]
  simp only
  rw [used, assertion, Nat.mul_div_cancel _ (by decide), if_neg (by simp [overflowHeader,
    BtreeNodeHeader.new]), if_neg (by omega), if_neg (by omega), body, link,
    Pod.unpack_pack_all, BlockRef.layout.of_to_bytes]

/-- An overflow region lies in a slot of the area and leads to the next slot, or is the last of
its chain. -/
def RegionAt (area : Nat) (d : Device) (slot : Nat) (link : Link (List PackedAssertion)) : Prop :=
  ∀ current : BlockRef, current.offset = area + slot * regionSize →
    readOverflowRegion d current =
      .ok (link.content,
        if link.last then BlockRef.zero else BlockRef.at_ (area + (slot + 1) * regionSize))

section

variable (area : Nat)

theorem region_local : SlotLocal (RegionAt area) area regionSize := by
  intro d e slot link same region current place
  have here := region current place
  rw [readOverflowRegion, place] at here ⊢
  rw [read_at_agrees same (by simp only [regionSize]; omega) (by simp only [regionSize]; omega)]
  exact here

theorem offset_of_slot (aligned : blockSize ∣ area) (slot count : Nat) (some_slot : 0 < count)
    (low : area + (slot + count) * regionSize ≤ 2 ^ 32 * blockSize) :
    (BlockRef.at_ (area + slot * regionSize)).offset = area + slot * regionSize := by
  apply BlockRef.offset_at
  · exact Nat.dvd_add aligned (Dvd.dvd.mul_left ⟨64, rfl⟩ _)
  · simp only [regionSize] at low ⊢
    omega

/-- A chain lies in its slots once it was written. -/
theorem overflow_regions_written (chunks : List (List PackedAssertion))
    (fit : ∀ chunk ∈ chunks, chunk.length ≤ forwardOverflowRegionCapacity) :
    ∀ slot head d after, writeOverflowRegions area slot chunks d = (.ok head, after) →
      head = (if chunks.isEmpty then BlockRef.zero else BlockRef.at_ (area + slot * regionSize)) ∧
        ChangesWithin (area + slot * regionSize) (chunks.length * regionSize) d after ∧
        Laid (RegionAt area after) slot (chain chunks) := by
  induction chunks with
  | nil =>
      intro slot head d after ok
      obtain ⟨same, unchanged⟩ := DeviceM.pure_ok _ _ _ _ ok
      subst same
      subst unchanged
      exact ⟨rfl, changes_within_refl _ _ _, laid_nil slot⟩
  | cons chunk rest ih =>
      intro slot head d after ok
      obtain ⟨link, middle, later, ok⟩ := DeviceM.bind_ok _ _ _ _ _ ok
      obtain ⟨⟨⟩, last, region, ok⟩ := DeviceM.bind_ok _ _ _ _ _ ok
      obtain ⟨same, unchanged⟩ := DeviceM.pure_ok _ _ _ _ ok
      subst same
      subst unchanged
      obtain ⟨next, tailChanges, tailLaid⟩ :=
        ih (fun other member => fit other (List.mem_cons_of_mem chunk member)) _ _ _ _ later
      have changes := overflow_region_changes _ chunk link (fit chunk List.mem_cons_self) _ _ region
      have kept : AgreesOn (area + (slot + 1) * regionSize) ((chain rest).length * regionSize)
          middle last :=
        agrees_of_apart changes (by unfold Apart; simp only [regionSize]; omega)
      refine ⟨rfl, ?_, ?_⟩
      · rw [List.length_cons]
        exact changes_within_trans
          (changes_within_mono tailChanges (by simp only [regionSize]; omega)
            (by simp only [regionSize]; omega))
          (changes_within_mono changes (Nat.le_refl _) (by simp only [regionSize]; omega))
      · rw [chain, laid_cons]
        refine ⟨?_, (region_local area).agree _ _ tailLaid kept⟩
        intro current place
        have back := overflow_region_read_back _ chunk link current place
          (fit chunk List.mem_cons_self) _ _ region
        rw [back.2 last (agrees_refl _ _ _), next]

/-- A chain is read through the slots from its first to the end, unless it is too long. -/
theorem read_regions (aligned : blockSize ∣ area) (d : Device)
    (links : List (Link (List PackedAssertion))) :
    ∀ slot, Laid (RegionAt area d) slot links → Closed links → links ≠ [] →
      area + (slot + links.length) * regionSize ≤ 2 ^ 32 * blockSize →
      ∀ allowance, readOverflowRegions d allowance (BlockRef.at_ (area + slot * regionSize)) =
        if (follow links).length ≤ allowance then .ok (follow links).flatten
        else .error (.corruptOverflowChain "chain exceeds expected length") := by
  induction links with
  | nil =>
      intro slot _ _ some_link
      exact absurd rfl some_link
  | cons link rest ih =>
      intro slot laid closed _ low allowance
      obtain ⟨here, behind⟩ := (laid_cons slot link rest).mp laid
      rw [List.length_cons] at low
      have place := offset_of_slot area aligned slot (rest.length + 1) (Nat.succ_pos _) low
      cases allowance with
      | zero =>
          rw [readOverflowRegions, if_neg (BlockRef.at_ne_zero _), follow, List.length_cons,
            if_neg (Nat.not_succ_le_zero _)]
      | succ allowance =>
          rw [readOverflowRegions, if_neg (BlockRef.at_ne_zero _), here _ place]
          cases last : link.last with
          | true =>
              have none (count : Nat) : readOverflowRegions d count BlockRef.zero = .ok [] := by
                cases count with
                | zero => exact if_pos rfl
                | succ more => exact if_pos rfl
              have one : (follow (link :: rest)).length ≤ allowance + 1 := by
                simp [follow, last]
              rw [if_pos one]
              simp [follow, last, none, bind, Except.bind]
          | false =>
              obtain ⟨some_link, ended⟩ := closed_rest link rest closed last
              have found := ih (slot + 1) behind ended some_link
                (by rw [show slot + 1 + rest.length = slot + (rest.length + 1) by omega]; exact low)
                allowance
              simp only [bind, Except.bind, Bool.false_eq_true, if_false]
              rw [found, follow, last, List.length_cons]
              simp only [Bool.false_eq_true, if_false, Nat.add_le_add_iff_right]
              by_cases fits : (follow rest).length ≤ allowance
              · rw [if_pos fits, if_pos fits]
                rfl
              · rw [if_neg fits, if_neg fits]

private theorem overflow_regions_failed (chunks : List (List PackedAssertion)) :
    ∀ slot err d after, writeOverflowRegions area slot chunks d = (.error err, after) →
      ∃ reason, err = .storage reason ∧ ¬ Refusal reason := by
  induction chunks with
  | nil =>
      intro slot err d after failed
      cases failed
  | cons chunk rest ih =>
      intro slot err d after failed
      cases DeviceM.bind_error _ _ _ _ _ failed with
      | inl later => exact ih _ _ _ _ later
      | inr behind =>
          obtain ⟨next, middle, -, failed⟩ := behind
          cases DeviceM.bind_error _ _ _ _ _ failed with
          | inl region =>
              obtain ⟨reason, stopped, same⟩ := DeviceM.map_error_failed _ _ _ _ _ region
              exact ⟨reason, same, write_at_refusal _ _ _ _ _ stopped⟩
          | inr done =>
              obtain ⟨_, _, -, returned⟩ := done
              cases returned

/-- What writing a chain has done. -/
theorem overflow_chain_written (cap slot next : Nat)
    (packed : List PackedAssertion) (many : packed ≠ []) (head : BlockRef) (d after : Device)
    (ok : writeOverflowChain area cap slot packed d = (.ok (head, next), after)) :
    head = BlockRef.at_ (area + slot * regionSize) ∧
      next = slot + (chunks forwardOverflowRegionCapacity packed).length ∧ next ≤ cap ∧
      ChangesWithin (area + slot * regionSize)
        ((chunks forwardOverflowRegionCapacity packed).length * regionSize) d after ∧
      Laid (RegionAt area after) slot (chain (chunks forwardOverflowRegionCapacity packed)) := by
  unfold writeOverflowChain at ok
  split at ok
  · cases ok
  · next fits =>
      obtain ⟨first, middle, written, ok⟩ := DeviceM.bind_ok _ _ _ _ _ ok
      obtain ⟨same, unchanged⟩ := DeviceM.pure_ok _ _ _ _ ok
      subst unchanged
      cases same
      obtain ⟨place, changes, laid⟩ := overflow_regions_written area _
        (length_of_mem_chunks forwardOverflowRegionCapacity packed) _ _ _ _ written
      rw [List.isEmpty_eq_false_iff.mpr (overflow_chunks_ne_nil packed many)] at place
      exact ⟨place, rfl, Nat.le_of_not_lt fits, changes, laid⟩

end

theorem masked_length (total : Nat) (few : total ≤ leafEntryTotalMask.toNat) :
    (UInt16.ofNat total &&& leafEntryTotalMask).toNat = total := by
  have mask : leafEntryTotalMask.toNat = 2 ^ 15 - 1 := rfl
  rw [mask] at few
  rw [UInt16.toNat_and, mask, Nat.and_two_pow_sub_one_eq_mod, UInt16.toNat_ofNat']
  omega

theorem mask_and_flag : leafEntryTotalMask &&& leafEntrySpillFlag = 0 := by decide

theorem and_or_right (left right mask : UInt16) :
    (left ||| right) &&& mask = (left &&& mask) ||| (right &&& mask) := by
  apply UInt16.toBitVec_inj.mp
  simp only [UInt16.toBitVec_and, UInt16.toBitVec_or]
  ext i
  simp only [BitVec.getElem_and, BitVec.getElem_or]
  exact Bool.and_or_distrib_right _ _ _

private theorem spill_header_total (total : Nat) :
    ((UInt16.ofNat total &&& leafEntryTotalMask) ||| leafEntrySpillFlag) &&& leafEntryTotalMask =
      UInt16.ofNat total &&& leafEntryTotalMask := by
  rw [and_or_right, UInt16.and_assoc, UInt16.and_self, UInt16.and_comm leafEntrySpillFlag,
    mask_and_flag, UInt16.or_zero]

private theorem spill_header_flag (total : Nat) :
    ((UInt16.ofNat total &&& leafEntryTotalMask) ||| leafEntrySpillFlag) &&& leafEntrySpillFlag ≠
      0 := by
  rw [and_or_right, UInt16.and_assoc, mask_and_flag, UInt16.and_zero, UInt16.zero_or,
    UInt16.and_self]
  decide

private theorem read_leaf_inline (d : Device) (packed : List PackedAssertion)
    (few : packed.length ≤ leafEntryInlineSpillThreshold) :
    readLeaf d (inlineTail packed) = .ok packed := by
  have width : (Pod.u16.toBytes (UInt16.ofNat packed.length &&& leafEntryTotalMask)).length = 2 :=
    Pod.u16.length_to_bytes _
  have bounded : packed.length ≤ leafEntryTotalMask.toNat := Nat.le_trans few (by decide)
  have total := masked_length packed.length bounded
  have body := Pod.length_pack_all PackedAssertion.layout packed
  have masked (header : UInt16) : header &&& leafEntryTotalMask &&& leafEntryTotalMask =
      header &&& leafEntryTotalMask := by
    rw [UInt16.and_assoc, UInt16.and_self]
  unfold readLeaf
  rw [if_neg (by rw [inlineTail, List.length_append, width]; omega)]
  simp only [inlineTail, List.take_left' width, List.drop_left' width, Pod.u16.of_to_bytes]
  rw [masked, total, if_neg (by rw [UInt16.and_assoc, mask_and_flag, UInt16.and_zero]; simp),
    if_neg (by omega)]
  have unpacked := Pod.unpack_pack_all PackedAssertion.layout packed []
  rw [List.append_nil] at unpacked
  rw [unpacked]

private theorem read_leaf_spill (d : Device) (total : Nat) (head : BlockRef)
    (bounded : total ≤ leafEntryTotalMask.toNat) :
    readLeaf d (spillTail total head) = readOverflowChain d head total := by
  have width : (Pod.u16.toBytes ((UInt16.ofNat total &&& leafEntryTotalMask) |||
      leafEntrySpillFlag)).length = 2 := Pod.u16.length_to_bytes _
  have link := BlockRef.layout.length_to_bytes head
  have masked := masked_length total bounded
  unfold readLeaf
  rw [if_neg (by rw [spillTail, List.length_append, width]; omega)]
  simp only [spillTail, List.take_left' width, List.drop_left' width, Pod.u16.of_to_bytes]
  rw [if_pos (spill_header_flag total), if_neg (by omega), spill_header_total, masked,
    List.take_of_length_le (by omega), BlockRef.layout.of_to_bytes]

def leafRegions (packed : List PackedAssertion) : List (Link (List PackedAssertion)) :=
  if packed.length ≤ leafEntryInlineSpillThreshold then []
  else chain (chunks forwardOverflowRegionCapacity packed)

def leafTail (area slot : Nat) (packed : List PackedAssertion) : List UInt8 :=
  if packed.length ≤ leafEntryInlineSpillThreshold then inlineTail packed
  else spillTail packed.length (BlockRef.at_ (area + slot * regionSize))

theorem closed_leaf_regions (packed : List PackedAssertion) : Closed (leafRegions packed) := by
  unfold leafRegions
  split
  · exact closed_nil
  · exact closed_chain _

private theorem length_leaf_tail (area slot : Nat) (packed : List PackedAssertion) :
    (leafTail area slot packed).length < 2 ^ 64 := by
  unfold leafTail
  split
  · next few =>
      rw [inlineTail, List.length_append, Pod.u16.length_to_bytes, Pod.length_pack_all]
      have sizes : Pod.u16.size = 2 ∧ PackedAssertion.layout.size = 16 := ⟨rfl, rfl⟩
      rw [leafEntryInlineSpillThreshold] at few
      rw [sizes.1, sizes.2]
      omega
  · rw [spillTail, List.length_append, Pod.u16.length_to_bytes, BlockRef.layout.length_to_bytes]
    decide

theorem leaf_regions_pos (packed : List PackedAssertion) :
    0 < (leafRegions packed).length ↔ leafEntryInlineSpillThreshold < packed.length := by
  unfold leafRegions
  split
  · next few => exact ⟨fun some_slot => absurd some_slot (Nat.lt_irrefl 0), fun many => by omega⟩
  · next many =>
      have some_assertion : packed ≠ [] := by
        intro none
        rw [none] at many
        exact many (Nat.zero_le _)
      rw [length_chain]
      exact ⟨fun _ => Nat.lt_of_not_le many, fun _ =>
        List.length_pos_of_ne_nil (overflow_chunks_ne_nil packed some_assertion)⟩

/-- What writing the value of an object has done. -/
theorem leaf_written (area cap slot next : Nat) (packed : List PackedAssertion)
    (tail : List UInt8) (inside : slot ≤ cap) (d after : Device)
    (ok : writeLeaf area cap slot packed d = (.ok (tail, next), after)) :
    packed.length ≤ leafEntryTotalMask.toNat ∧ tail = leafTail area slot packed ∧
      next = slot + (leafRegions packed).length ∧ next ≤ cap ∧
      ChangesWithin (area + slot * regionSize) ((leafRegions packed).length * regionSize) d after ∧
      Laid (RegionAt area after) slot (leafRegions packed) := by
  unfold writeLeaf at ok
  split at ok
  · cases ok
  · next bounded =>
      unfold leafTail leafRegions
      split at ok
      · next few =>
          obtain ⟨same, unchanged⟩ := DeviceM.pure_ok _ _ _ _ ok
          cases same
          subst unchanged
          rw [if_pos few, if_pos few]
          exact ⟨Nat.le_of_not_lt bounded, rfl, rfl, inside, changes_within_refl _ _ _,
            laid_nil slot⟩
      · next many =>
          obtain ⟨⟨head, stop⟩, middle, chain, ok⟩ := DeviceM.bind_ok _ _ _ _ _ ok
          obtain ⟨same, unchanged⟩ := DeviceM.pure_ok _ _ _ _ ok
          cases same
          subst unchanged
          have some_assertion : packed ≠ [] := by
            intro none
            rw [none] at many
            exact many (Nat.zero_le _)
          obtain ⟨place, moved, below, changes, laid⟩ :=
            overflow_chain_written area cap slot _ packed some_assertion head _ _ chain
          rw [if_neg many, if_neg many, place, length_chain]
          exact ⟨Nat.le_of_not_lt bounded, rfl, moved, below, changes, laid⟩

private theorem leaf_failed (area cap slot : Nat) (packed : List PackedAssertion) (err : IndexError)
    (d after : Device) (failed : writeLeaf area cap slot packed d = (.error err, after))
    (refused : ∀ reason, err = .storage reason → Refusal reason) :
    (leafEntryTotalMask.toNat < packed.length ∨ cap < slot + (leafRegions packed).length) ∧
      after = d := by
  unfold writeLeaf at failed
  split at failed
  · next many =>
      cases failed
      exact ⟨Or.inl many, rfl⟩
  · split at failed
    · cases failed
    · next many =>
        cases DeviceM.bind_error _ _ _ _ _ failed with
        | inr done =>
            obtain ⟨_, _, -, returned⟩ := done
            cases returned
        | inl chain =>
            unfold writeOverflowChain at chain
            split at chain
            · next full =>
                cases chain
                refine ⟨Or.inr ?_, rfl⟩
                rw [leafRegions, if_neg many, length_chain]
                exact full
            · cases DeviceM.bind_error _ _ _ _ _ chain with
              | inl regions =>
                  obtain ⟨reason, same, broken⟩ := overflow_regions_failed area _ _ _ _ _ regions
                  exact absurd (refused reason same) broken
              | inr done =>
                  obtain ⟨_, _, -, returned⟩ := done
                  cases returned

/-- The slots of the objects. -/
def objectRegions (hash : ValueHash) :
    List (UInt64 × List (Assertion × TagOrigin)) → List (Link (List PackedAssertion))
  | [] => []
  | (_, assertions) :: rest =>
      leafRegions (packAssertions hash assertions) ++ objectRegions hash rest

/-- The directory entries of objects whose slots start at a given one. -/
def objectLeaves (hash : ValueHash) (area : Nat) :
    Nat → List (UInt64 × List (Assertion × TagOrigin)) → List (ForwardIndexKey × List UInt8)
  | _, [] => []
  | slot, (oid, assertions) :: rest =>
      (⟨oid, 0⟩, leafTail area slot (packAssertions hash assertions)) ::
        objectLeaves hash area (slot + (leafRegions (packAssertions hash assertions)).length) rest

private theorem keys_object_leaves (hash : ValueHash) (area : Nat)
    (objects : List (UInt64 × List (Assertion × TagOrigin))) :
    ∀ slot, (objectLeaves hash area slot objects).map Prod.fst =
      objects.map fun object => ⟨object.1, 0⟩ := by
  induction objects with
  | nil =>
      intro slot
      rfl
  | cons object rest ih =>
      intro slot
      rw [objectLeaves, List.map_cons, List.map_cons, ih]

private theorem short_object_leaves (hash : ValueHash) (area : Nat)
    (objects : List (UInt64 × List (Assertion × TagOrigin))) :
    ∀ slot, ∀ leaf ∈ objectLeaves hash area slot objects, leaf.2.length < 2 ^ 64 := by
  induction objects with
  | nil =>
      intro slot leaf member
      exact absurd member List.not_mem_nil
  | cons object rest ih =>
      intro slot leaf member
      cases List.mem_cons.mp member with
      | inl first =>
          rw [first]
          exact length_leaf_tail area slot _
      | inr later => exact ih _ leaf later

theorem closed_object_regions (hash : ValueHash)
    (objects : List (UInt64 × List (Assertion × TagOrigin))) :
    Closed (objectRegions hash objects) := by
  induction objects with
  | nil => exact closed_nil
  | cons object rest ih => exact closed_append _ _ (closed_leaf_regions _) ih

private theorem object_regions_pos (hash : ValueHash)
    (objects : List (UInt64 × List (Assertion × TagOrigin))) :
    0 < (objectRegions hash objects).length ↔
      ∃ object ∈ objects, leafEntryInlineSpillThreshold < object.2.length := by
  induction objects with
  | nil => simp [objectRegions]
  | cons object rest ih =>
      have first := leaf_regions_pos (packAssertions hash object.2)
      rw [length_pack_assertions] at first
      rw [List.exists_mem_cons_iff, ← ih, ← first, objectRegions, List.length_append]
      omega

/-- The slots of the objects in front of the first that is refused. -/
def writtenRegions (hash : ValueHash) (cap : Nat) :
    Nat → List (UInt64 × List (Assertion × TagOrigin)) → List (Link (List PackedAssertion))
  | _, [] => []
  | slot, (_, assertions) :: rest =>
      let packed := packAssertions hash assertions
      let regions := leafRegions packed
      if leafEntryTotalMask.toNat < packed.length then []
      else if cap < slot + regions.length then []
      else regions ++ writtenRegions hash cap (slot + regions.length) rest

theorem closed_written_regions (hash : ValueHash) (cap : Nat)
    (objects : List (UInt64 × List (Assertion × TagOrigin))) :
    ∀ slot, Closed (writtenRegions hash cap slot objects) := by
  induction objects with
  | nil =>
      intro slot
      exact closed_nil
  | cons object rest ih =>
      intro slot
      simp only [writtenRegions]
      split
      · exact closed_nil
      · split
        · exact closed_nil
        · exact closed_append _ _ (closed_leaf_regions _) (ih _)

/-- The objects lie in their slots as far as none is refused; the directory entries are those of
all objects. -/
theorem objects_written (hash : ValueHash) (area cap : Nat)
    (objects : List (UInt64 × List (Assertion × TagOrigin))) :
    ∀ slot result d after, slot ≤ cap →
      (∀ err, result = .error err → ∀ reason, err = .storage reason → Refusal reason) →
      writeLeaves hash area cap slot objects d = (result, after) →
      slot + (writtenRegions hash cap slot objects).length ≤ cap ∧
        ChangesWithin (area + slot * regionSize)
          ((writtenRegions hash cap slot objects).length * regionSize) d after ∧
        Laid (RegionAt area after) slot (writtenRegions hash cap slot objects) ∧
        ∀ leaves next, result = .ok (leaves, next) →
          (∀ object ∈ objects, object.2.length ≤ leafEntryTotalMask.toNat) ∧
            writtenRegions hash cap slot objects = objectRegions hash objects ∧
            leaves = objectLeaves hash area slot objects ∧
            next = slot + (objectRegions hash objects).length := by
  induction objects with
  | nil =>
      intro slot result d after inside _ ran
      cases ran
      refine ⟨inside, changes_within_refl _ _ _, laid_nil slot, ?_⟩
      intro leaves next same
      cases same
      exact ⟨fun object member => absurd member List.not_mem_nil, rfl, rfl, rfl⟩
  | cons object rest ih =>
      obtain ⟨oid, assertions⟩ := object
      intro slot result d after inside sound ran
      simp only [writtenRegions]
      cases DeviceM.bind_cases _ _ _ _ _ ran with
      | inl stopped =>
          obtain ⟨err, failed, same⟩ := stopped
          obtain ⟨refused, unchanged⟩ := leaf_failed area cap slot _ err d after failed
            (sound err same)
          have empty : (if leafEntryTotalMask.toNat < (packAssertions hash assertions).length then []
              else if cap < slot + (leafRegions (packAssertions hash assertions)).length then []
              else leafRegions (packAssertions hash assertions) ++ writtenRegions hash cap
                (slot + (leafRegions (packAssertions hash assertions)).length) rest) = [] := by
            cases refused with
            | inl many => exact if_pos many
            | inr full =>
                rw [if_pos full]
                exact ite_self []
          rw [empty, unchanged]
          refine ⟨inside, changes_within_refl _ _ _, laid_nil slot, ?_⟩
          intro leaves next returned
          rw [same] at returned
          cases returned
      | inr went =>
          obtain ⟨⟨tail, middleSlot⟩, middle, leaf, ran⟩ := went
          obtain ⟨short, tailIs, moved, below, firstChanges, firstLaid⟩ :=
            leaf_written area cap slot middleSlot _ tail inside _ _ leaf
          rw [if_neg (Nat.not_lt.mpr short), if_neg (by omega)]
          obtain ⟨outcome, others, same⟩ := DeviceM.bind_pure _
            (fun pair : List (ForwardIndexKey × List UInt8) × Nat =>
              ((⟨oid, 0⟩, tail) :: pair.1, pair.2)) _ _ _ ran
          obtain ⟨within, restChanges, restLaid, restDone⟩ := ih middleSlot outcome middle after
            below (fun err failed => sound err (by rw [same, failed]; rfl)) others
          rw [moved] at within restChanges restLaid restDone
          rw [List.length_append]
          refine ⟨by omega, ?_, ?_, ?_⟩
          · exact changes_within_trans
              (changes_within_mono firstChanges (Nat.le_refl _) (by simp only [regionSize]; omega))
              (changes_within_mono restChanges (by simp only [regionSize]; omega)
                (by simp only [regionSize]; omega))
          · rw [laid_append]
            refine ⟨(region_local area).agree _ _ firstLaid ?_, restLaid⟩
            exact agrees_of_apart restChanges (by unfold Apart; simp only [regionSize]; omega)
          · intro leaves next returned
            cases outcome with
            | error err =>
                rw [same] at returned
                cases returned
            | ok rests =>
                rw [same] at returned
                cases returned
                obtain ⟨restShort, all, restsAre, ends⟩ := restDone rests.1 rests.2 rfl
                rw [length_pack_assertions] at short
                rw [all, restsAre, ends, objectRegions, List.length_append, Nat.add_assoc,
                  objectLeaves, tailIs]
                refine ⟨?_, rfl, rfl, rfl⟩
                intro other member
                cases List.mem_cons.mp member with
                | inl first =>
                    rw [first]
                    exact short
                | inr present => exact restShort other present

/-- The assertions of one object as they are found in slots, which need not be its own. -/
def rereadLeaf (links : List (Link (List PackedAssertion))) (packed : List PackedAssertion) :
    Option (List PackedAssertion) :=
  if packed.length ≤ leafEntryInlineSpillThreshold then some packed
  else
    let found := follow links
    if found.length ≤ packed.length / forwardOverflowRegionCapacity + 2 ∧
        found.flatten.length = packed.length then
      some found.flatten
    else none

/-- The objects as they are found in slots, which need not be their own. -/
def rereadObjects (hash : ValueHash) :
    List (Link (List PackedAssertion)) → List (UInt64 × List (Assertion × TagOrigin)) →
      Option (List (UInt64 × List (Assertion × TagOrigin)))
  | _, [] => some []
  | links, (oid, assertions) :: rest =>
      let packed := packAssertions hash assertions
      match rereadLeaf links packed with
      | none => none
      | some found =>
          match found.mapM fun assertion => assertion.toLogical none with
          | .error _ => none
          | .ok list =>
              (rereadObjects hash (links.drop (leafRegions packed).length) rest).map
                ((oid, list) :: ·)

private theorem keys_reread_objects (hash : ValueHash)
    (objects : List (UInt64 × List (Assertion × TagOrigin))) :
    ∀ links found, rereadObjects hash links objects = some found →
      found.map Prod.fst = objects.map Prod.fst := by
  induction objects with
  | nil =>
      intro links found read
      cases read
      rfl
  | cons object rest ih =>
      intro links found read
      simp only [rereadObjects] at read
      split at read
      · cases read
      · split at read
        · cases read
        · obtain ⟨later, behind, same⟩ := Option.map_eq_some_iff.mp read
          rw [← same, List.map_cons, List.map_cons, ih _ _ behind]

private theorem reread_own_leaf (packed : List PackedAssertion)
    (more : List (Link (List PackedAssertion))) :
    rereadLeaf (leafRegions packed ++ more) packed = some packed := by
  unfold rereadLeaf leafRegions
  split
  · rfl
  · next many =>
      have some_assertion : packed ≠ [] := by
        intro none
        rw [none] at many
        exact many (Nat.zero_le _)
      have enough : (chunks forwardOverflowRegionCapacity packed).length ≤
          packed.length / forwardOverflowRegionCapacity + 2 := by
        rw [chunks, length_pieces, forwardOverflowRegionCapacity]
        omega
      rw [follow_chain _ more (overflow_chunks_ne_nil packed some_assertion)]
      dsimp only
      rw [flatten_chunks _ (by decide : 0 < forwardOverflowRegionCapacity), if_pos ⟨enough, rfl⟩]

/-- Objects are found in their own slots, with what is left of their assertions. -/
theorem reread_own_objects (hash : ValueHash)
    (objects : List (UInt64 × List (Assertion × TagOrigin)))
    (narrow : ∀ object ∈ objects, ∀ entry ∈ object.2, assertionTag entry.1 < 2 ^ 32) :
    rereadObjects hash (objectRegions hash objects) objects =
      some (objects.map fun object => (object.1, object.2.map storedEntry)) := by
  induction objects with
  | nil => rfl
  | cons object rest ih =>
      have behind := ih fun other member => narrow other (List.mem_cons_of_mem object member)
      have content := logical_of_packed hash object.2 (narrow object List.mem_cons_self)
      simp only [rereadObjects, objectRegions, reread_own_leaf, content]
      rw [List.drop_left, behind]
      rfl

section

variable (env : ForwardRegionEnv) (area : Nat) (aligned : blockSize ∣ area) (d : Device)

include aligned

private theorem read_leaf_tail (slot : Nat) (packed : List PackedAssertion)
    (bounded : packed.length ≤ leafEntryTotalMask.toNat)
    (links : List (Link (List PackedAssertion))) (laid : Laid (RegionAt area d) slot links)
    (closed : Closed links) (room : (leafRegions packed).length ≤ links.length)
    (low : area + (slot + links.length) * regionSize ≤ 2 ^ 32 * blockSize) :
    match rereadLeaf links packed with
    | some found => readLeaf d (leafTail area slot packed) = .ok found
    | none => ∃ err, readLeaf d (leafTail area slot packed) = .error err := by
  unfold rereadLeaf leafTail
  by_cases few : packed.length ≤ leafEntryInlineSpillThreshold
  · rw [if_pos few, if_pos few]
    exact read_leaf_inline d packed few
  · have some_slot := (leaf_regions_pos packed).mpr (Nat.lt_of_not_le few)
    have some_link : links ≠ [] := List.ne_nil_of_length_pos (by omega)
    have regions := read_regions area aligned d links slot laid closed some_link low
      (packed.length / forwardOverflowRegionCapacity + 2)
    rw [if_neg few, if_neg few, read_leaf_spill d _ _ bounded, readOverflowChain, regions]
    dsimp only
    by_cases short : (follow links).length ≤ packed.length / forwardOverflowRegionCapacity + 2
    · rw [if_pos short]
      by_cases total : (follow links).flatten.length = packed.length
      · rw [if_pos ⟨short, total⟩]
        simp only [bind, Except.bind]
        rw [if_neg (fun different => different total)]
      · rw [if_neg (fun both => total both.2)]
        simp only [bind, Except.bind]
        rw [if_pos total]
        exact ⟨_, rfl⟩
    · rw [if_neg short, if_neg (fun both => short both.1)]
      exact ⟨_, rfl⟩

/-- What the directory entries lead to, whatever lies in the slots. -/
theorem read_object_leaves (hash : ValueHash)
    (objects : List (UInt64 × List (Assertion × TagOrigin)))
    (bounded : ∀ object ∈ objects, object.2.length ≤ leafEntryTotalMask.toNat) :
    ∀ slot links, Laid (RegionAt area d) slot links → Closed links →
      (objectRegions hash objects).length ≤ links.length →
      area + (slot + links.length) * regionSize ≤ 2 ^ 32 * blockSize → ∀ found,
        match rereadObjects hash links objects with
        | some list =>
            ForwardIndex.fromLeafEntries d (objectLeaves hash area slot objects) found =
              .ok ⟨list.foldl (fun m entry => m.insert entry.1 entry.2) found⟩
        | none => ∃ err,
            ForwardIndex.fromLeafEntries d (objectLeaves hash area slot objects) found =
              .error err := by
  induction objects with
  | nil =>
      intro slot links _ _ _ _ found
      rfl
  | cons object rest ih =>
      obtain ⟨oid, assertions⟩ := object
      intro slot links laid closed room low found
      rw [objectRegions, List.length_append] at room
      have short : (packAssertions hash assertions).length ≤ leafEntryTotalMask.toNat := by
        rw [length_pack_assertions]
        exact bounded _ List.mem_cons_self
      have leafHere := read_leaf_tail area aligned d slot (packAssertions hash assertions) short
        links laid closed (by omega) low
      simp only [rereadObjects, objectLeaves, ForwardIndex.fromLeafEntries]
      cases read : rereadLeaf links (packAssertions hash assertions) with
      | none =>
          rw [read] at leafHere
          obtain ⟨err, lost⟩ := leafHere
          rw [lost]
          exact ⟨err, rfl⟩
      | some packed =>
          rw [read] at leafHere
          rw [leafHere]
          simp only [bind, Except.bind]
          cases logical : packed.mapM fun assertion => assertion.toLogical none with
          | error err => exact ⟨err, rfl⟩
          | ok list =>
              have behind := ih
                (fun other member => bounded other (List.mem_cons_of_mem _ member)) _ _
                (laid_drop slot (leafRegions (packAssertions hash assertions)).length links laid)
                (closed_drop links _ closed) (by rw [List.length_drop]; omega)
                (by
                  rw [List.length_drop, Nat.add_assoc, Nat.add_sub_cancel' (by omega)]
                  exact low) (found.insert oid list)
              dsimp only
              cases later : rereadObjects hash
                  (links.drop (leafRegions (packAssertions hash assertions)).length) rest with
              | none =>
                  rw [later] at behind
                  exact behind
              | some others =>
                  rw [later] at behind
                  exact behind

end

namespace ForwardIndex

def stored (index : ForwardIndex) : ForwardIndex :=
  { entries := mapVals (fun assertions => assertions.map storedEntry) index.entries }

def Spills (index : ForwardIndex) : Prop :=
  ∃ oid assertions, index.entries.lookup oid = some assertions ∧
    leafEntryInlineSpillThreshold < assertions.length

def storedObjects (index : ForwardIndex) : List (UInt64 × List (Assertion × TagOrigin)) :=
  (toSorted index.entries).map fun object => (object.1, object.2.map storedEntry)

private theorem of_stored_objects (index : ForwardIndex) :
    ofEntries index.storedObjects = index.stored.entries :=
  of_entries_map_vals (fun assertions : List (Assertion × TagOrigin) =>
    assertions.map storedEntry) index.entries

end ForwardIndex

/-- What a flush that succeeds has done. -/
theorem forward_flush_written (env : ForwardRegionEnv) (index : ForwardIndex)
    (dirOffset area cap regions : Nat) (d after : Device)
    (ok : index.flushToRegion env dirOffset area cap d = (.ok regions, after)) :
    (∀ object ∈ toSorted index.entries, object.2.length ≤ leafEntryTotalMask.toNat) ∧
      regions = (objectRegions env.hash (toSorted index.entries)).length ∧ regions ≤ cap ∧
      ∃ middle,
        ChangesWithin area (regions * regionSize) d middle ∧
        Laid (RegionAt area middle) 0 (objectRegions env.hash (toSorted index.entries)) ∧
        ChangesWithin dirOffset regionSize middle after ∧
        ∀ e, AgreesOn dirOffset regionSize after e →
          loadTable env.crc env.codec .forward e dirOffset =
            .ok (objectLeaves env.hash area 0 (toSorted index.entries)) := by
  obtain ⟨⟨leaves, slots⟩, middle, written, ok⟩ := DeviceM.bind_ok _ _ _ _ _ ok
  obtain ⟨⟨⟩, last, directory, ok⟩ := DeviceM.bind_ok _ _ _ _ _ ok
  obtain ⟨same, unchanged⟩ := DeviceM.pure_ok _ _ _ _ ok
  subst same
  subst unchanged
  obtain ⟨inside, changes, laid, done⟩ := objects_written env.hash area cap
    (toSorted index.entries) 0 _ _ _ (Nat.zero_le _) (fun err same => by cases same) written
  obtain ⟨short, all, leavesAre, ends⟩ := done leaves slots rfl
  rw [Nat.zero_add] at ends inside
  rw [all, ← ends] at inside
  rw [all, ← ends, Nat.zero_mul, Nat.add_zero] at changes
  rw [all] at laid
  subst leavesAre
  have increasing : ((objectLeaves env.hash area 0 (toSorted index.entries)).map
      Prod.fst).Pairwise (· < ·) := by
    rw [keys_object_leaves, List.pairwise_map]
    have sorted := increasing_to_sorted index.entries
    rw [List.pairwise_map] at sorted
    apply sorted.imp
    intro left right less
    exact Prod.Lex.lt_iff.mpr (Or.inl less)
  have table := packed_table_read_back env.crc _ ForwardIndexKey.packable_lawful _ _ _ _ _ _
    dirOffset _ _ (DeviceM.map_error_ok _ _ _ _ _ directory) increasing (fun _ _ => rfl)
    (short_object_leaves env.hash area _ 0) (fun fixed => by cases fixed)
  exact ⟨short, ends, inside, middle, changes, laid, table.1, table.2⟩

/-- An index is loaded from its directory just when its objects are found in the slots. -/
theorem forward_index_loads_iff (env : ForwardRegionEnv) (index : ForwardIndex)
    (bounded : ∀ object ∈ toSorted index.entries, object.2.length ≤ leafEntryTotalMask.toNat)
    (dirOffset area : Nat) (aligned : blockSize ∣ area) (d : Device)
    (directory : loadTable env.crc env.codec .forward d dirOffset =
      .ok (objectLeaves env.hash area 0 (toSorted index.entries)))
    (links : List (Link (List PackedAssertion))) (laid : Laid (RegionAt area d) 0 links)
    (closed : Closed links)
    (room : (objectRegions env.hash (toSorted index.entries)).length ≤ links.length)
    (low : area + links.length * regionSize ≤ 2 ^ 32 * blockSize) :
    ForwardIndex.loadFromRegion env d dirOffset = .ok index.stored ↔
      rereadObjects env.hash links (toSorted index.entries) = some index.storedObjects := by
  have found := read_object_leaves area aligned d env.hash (toSorted index.entries) bounded 0 links
    laid closed room (by rw [Nat.zero_add]; exact low) ∅
  have keys : (index.storedObjects.map Prod.fst) = (toSorted index.entries).map Prod.fst := by
    rw [ForwardIndex.storedObjects, List.map_map]
    rfl
  rw [ForwardIndex.loadFromRegion, directory]
  simp only [Except.mapError, bind, Except.bind]
  cases read : rereadObjects env.hash links (toSorted index.entries) with
  | none =>
      rw [read] at found
      obtain ⟨err, lost⟩ := found
      rw [lost]
      constructor
      · intro loaded
        cases loaded
      · intro same
        cases same
  | some list =>
      rw [read] at found
      dsimp only at found
      rw [found]
      have increasing : (list.map Prod.fst).Pairwise (· < ·) := by
        rw [keys_reread_objects _ _ _ _ read]
        exact increasing_to_sorted index.entries
      have stored : (index.storedObjects.map Prod.fst).Pairwise (· < ·) := by
        rw [keys]
        exact increasing_to_sorted index.entries
      have whole : list.foldl (fun m entry => m.insert entry.1 entry.2) ∅ = ofEntries list := rfl
      rw [whole]
      constructor
      · intro loaded
        have same : ofEntries list = ofEntries index.storedObjects := by
          rw [ForwardIndex.of_stored_objects]
          exact congrArg ForwardIndex.entries (Except.ok.inj loaded)
        rw [← to_sorted_of_entries list increasing, same, to_sorted_of_entries _ stored]
      · intro same
        rw [Option.some.inj same, ForwardIndex.of_stored_objects]

/-- A forward index that was flushed is read back where the bytes are the same. -/
theorem forward_index_read_back (env : ForwardRegionEnv) (index : ForwardIndex)
    (narrow : ∀ object ∈ toSorted index.entries, ∀ entry ∈ object.2,
      assertionTag entry.1 < 2 ^ 32)
    (dirOffset area cap regions : Nat) (aligned : blockSize ∣ area)
    (low : area + cap * regionSize ≤ 2 ^ 32 * blockSize) (d after : Device)
    (ok : index.flushToRegion env dirOffset area cap d = (.ok regions, after)) :
    regions ≤ cap ∧ (0 < regions ↔ index.Spills) ∧ ∃ middle,
      ChangesWithin area (regions * regionSize) d middle ∧
      ChangesWithin dirOffset regionSize middle after ∧
      ∀ e, AgreesOn area (regions * regionSize) middle e → AgreesOn dirOffset regionSize after e →
        ForwardIndex.loadFromRegion env e dirOffset = .ok index.stored := by
  obtain ⟨short, count, inside, middle, changes, laid, directoryChanges, back⟩ :=
    forward_flush_written env index dirOffset area cap regions d after ok
  refine ⟨inside, ?_, middle, changes, directoryChanges, ?_⟩
  · rw [count, object_regions_pos]
    constructor
    · intro found
      obtain ⟨object, member, many⟩ := found
      exact ⟨object.1, object.2, (mem_to_sorted _ _ _).mp member, many⟩
    · intro found
      obtain ⟨oid, assertions, located, many⟩ := found
      exact ⟨(oid, assertions), (mem_to_sorted _ _ _).mpr located, many⟩
  · intro e areaHere directoryHere
    have here : Laid (RegionAt area e) 0 (objectRegions env.hash (toSorted index.entries)) := by
      apply (region_local area).agree 0 _ laid
      rw [Nat.zero_mul, Nat.add_zero, ← count]
      exact areaHere
    apply (forward_index_loads_iff env index short dirOffset area aligned e (back e directoryHere) _
      here (closed_object_regions _ _) (Nat.le_refl _) (by
        have bounded := Nat.mul_le_mul_right regionSize inside
        rw [count] at bounded
        omega)).mpr
    exact reread_own_objects env.hash _ narrow

/-- A forward index that was flushed is loaded again with its objects and, for each of them, its
assertions in their order and with their origins. The values of attributes are lost. -/
theorem forward_flush_round_trip (env : ForwardRegionEnv) (index : ForwardIndex)
    (narrow : ∀ oid assertions, index.entries.lookup oid = some assertions →
      ∀ entry ∈ assertions, assertionTag entry.1 < 2 ^ 32)
    (dirOffset area cap regions : Nat) (aligned : blockSize ∣ area)
    (low : area + cap * regionSize ≤ 2 ^ 32 * blockSize)
    (apart : Apart dirOffset regionSize area (cap * regionSize)) (d after : Device)
    (ok : index.flushToRegion env dirOffset area cap d = (.ok regions, after)) :
    ∃ loaded, ForwardIndex.loadFromRegion env after dirOffset = .ok loaded ∧
      ∀ oid, loaded.entries.lookup oid =
        (index.entries.lookup oid).map fun assertions => assertions.map storedEntry := by
  have small : ∀ object ∈ toSorted index.entries, ∀ entry ∈ object.2,
      assertionTag entry.1 < 2 ^ 32 := by
    intro object member
    exact narrow object.1 object.2 ((mem_to_sorted _ _ _).mp member)
  obtain ⟨inside, -, middle, -, directory, loads⟩ :=
    forward_index_read_back env index small dirOffset area cap regions aligned low d after ok
  have bounded := Nat.mul_le_mul_right regionSize inside
  have kept : AgreesOn area (regions * regionSize) middle after := by
    apply agrees_of_apart directory
    unfold Apart at apart ⊢
    omega
  refine ⟨index.stored, loads after kept (agrees_refl _ _ _), ?_⟩
  intro oid
  exact lookup_map_vals _ _ _

section

variable (area cap : Nat) {limit : Nat}

private theorem completes_overflow_regions (chunks : List (List PackedAssertion))
    (fit : ∀ chunk ∈ chunks, chunk.length ≤ forwardOverflowRegionCapacity) :
    ∀ slot, area + (slot + chunks.length) * regionSize ≤ limit →
      Completes limit (writeOverflowRegions area slot chunks) fun _ => True := by
  induction chunks with
  | nil => exact fun slot _ => completes_pure _ trivial
  | cons chunk rest ih =>
      obtain ⟨first, others⟩ := List.forall_mem_cons.mp fit
      intro slot inside
      rw [List.length_cons] at inside
      have later : area + (slot + 1 + rest.length) * regionSize ≤ limit := by
        rw [Nat.add_assoc slot 1, Nat.add_comm 1]
        exact inside
      apply completes_bind (fun _ => True) (ih others (slot + 1) later)
      intro next _
      apply completes_bind fun _ => True
      · apply completes_map_error
        apply completes_write
        rw [length_overflow_image chunk next first]
        simp only [regionSize] at inside ⊢
        omega
      · exact fun _ _ => completes_pure _ trivial

private theorem completes_leaf_value (room : area + cap * regionSize ≤ limit) (slot : Nat)
    (packed : List PackedAssertion) (bounded : packed.length ≤ leafEntryTotalMask.toNat)
    (fits : slot + (leafRegions packed).length ≤ cap) :
    Completes limit (writeLeaf area cap slot packed) fun written =>
      written = (leafTail area slot packed, slot + (leafRegions packed).length) := by
  have inside := Nat.mul_le_mul_right regionSize fits
  have written : Completes limit (writeLeaf area cap slot packed) fun _ => True := by
    unfold leafRegions at fits inside
    unfold writeLeaf
    rw [if_neg (Nat.not_lt.mpr bounded)]
    split
    · exact completes_pure _ trivial
    · next many =>
        rw [if_neg many, length_chain] at fits inside
        unfold writeOverflowChain
        dsimp only
        rw [if_neg (Nat.not_lt.mpr fits)]
        apply completes_bind fun _ => True
        · apply completes_bind (fun _ => True)
          · exact completes_overflow_regions area _ (length_of_mem_chunks _ packed) slot (by omega)
          · exact fun _ _ => completes_pure _ trivial
        · exact fun _ _ => completes_pure _ trivial
  apply completes_ok written
  rintro ⟨tail, next⟩ d after ok
  obtain ⟨-, tailIs, ends, -⟩ := leaf_written area cap slot next packed tail (by omega) d after ok
  rw [tailIs, ends]

private theorem completes_objects (hash : ValueHash) (room : area + cap * regionSize ≤ limit)
    (objects : List (UInt64 × List (Assertion × TagOrigin)))
    (bounded : ∀ object ∈ objects, object.2.length ≤ leafEntryTotalMask.toNat) :
    ∀ slot, slot + (objectRegions hash objects).length ≤ cap →
      Completes limit (writeLeaves hash area cap slot objects) fun written =>
        written = (objectLeaves hash area slot objects,
          slot + (objectRegions hash objects).length) := by
  induction objects with
  | nil => exact fun slot _ => completes_pure _ rfl
  | cons object rest ih =>
      obtain ⟨oid, assertions⟩ := object
      obtain ⟨first, others⟩ := List.forall_mem_cons.mp bounded
      intro slot fits
      rw [objectRegions, List.length_append] at fits ⊢
      apply completes_bind _ (completes_leaf_value area cap room slot (packAssertions hash assertions)
        (by rw [length_pack_assertions]; exact first) (by omega))
      rintro _ rfl
      apply completes_bind _ (ih others _ (by omega))
      rintro _ rfl
      apply completes_pure
      rw [objectLeaves, Nat.add_assoc]

end

/-- An index that fits its area is flushed. -/
theorem completes_forward_flush (env : ForwardRegionEnv) (index : ForwardIndex)
    (dirOffset area cap : Nat) {limit : Nat}
    (bounded : ∀ object ∈ toSorted index.entries, object.2.length ≤ leafEntryTotalMask.toNat)
    (fits : (objectRegions env.hash (toSorted index.entries)).length ≤ cap)
    (encoded : ∃ payload,
      env.codec.encode (objectLeaves env.hash area 0 (toSorted index.entries)) = .ok payload ∧
        blockSize + SortedRunHeader.layout.size + payload.length ≤ regionSize)
    (room : area + cap * regionSize ≤ limit) (directoryRoom : dirOffset + regionSize ≤ limit) :
    Completes limit (index.flushToRegion env dirOffset area cap)
      fun regions => regions = (objectRegions env.hash (toSorted index.entries)).length := by
  unfold ForwardIndex.flushToRegion
  apply completes_bind _ (completes_objects area cap env.hash room _ bounded 0 (by omega))
  rintro _ rfl
  apply completes_bind fun _ => True
  · apply completes_map_error
    exact completes_flush_table env.crc env.codec _ _ (fun _ => encoded) dirOffset directoryRoom
  · exact fun _ _ => completes_pure _ (Nat.zero_add _)

def sampleForwardEnv : ForwardRegionEnv where
  crc := crc32c
  hash value := if value = .int 8 then 0xe867eb814244cc3e else 0
  cbor :=
    { encode _ := .error "unsupported"
      decode _ := .error "unsupported"
      decode_encode _ _ encoded := by cases encoded }

def sampleAssertions : List (Assertion × TagOrigin) :=
  [(.tag 3, .direct), (.attr 4 (.int 8), .direct), (.tag 2, .materialized)]

/-- An object with its assertions inline, and one with more than are kept inline. -/
def sampleObjects : List (UInt64 × List (Assertion × TagOrigin)) :=
  [(7, sampleAssertions),
    (9, sampleAssertions ++ (List.range 7).map fun tag => (.tag (10 + tag), .direct))]

def sampleForward : ForwardIndex := { entries := ofEntries sampleObjects }

/-- Of the attribute only its key is loaded. -/
theorem sample_forward_round_trip : ∃ after loaded,
    sampleForward.flushToRegion sampleForwardEnv 0 regionSize 1 emptyDevice = (.ok 1, after) ∧
      ForwardIndex.loadFromRegion sampleForwardEnv after 0 = .ok loaded ∧
      ∀ oid, loaded.entries.lookup oid =
        (sampleForward.entries.lookup oid).map fun assertions => assertions.map storedEntry := by
  have listed : toSorted sampleForward.entries = sampleObjects := to_sorted_of_entries _ (by decide)
  have regions : (objectRegions sampleForwardEnv.hash sampleObjects).length = 1 := by decide +kernel
  have flushes := completes_forward_flush sampleForwardEnv sampleForward 0 regionSize 1
    (by rw [listed]; decide) (by rw [listed, regions])
    (encodes_short _ _ (by rw [listed]; decide +kernel))
    (show regionSize + 1 * regionSize ≤ emptyDevice.capacity by decide) (by decide)
  rw [listed, regions] at flushes
  obtain ⟨_, after, flushed, rfl, -⟩ := flushes emptyDevice
    ⟨rfl, fun _ member => absurd member List.not_mem_nil⟩ (Nat.le_refl _)
  obtain ⟨loaded, ok, same⟩ := forward_flush_round_trip sampleForwardEnv sampleForward (by
    intro oid assertions located
    have member := (mem_to_sorted _ _ _).mpr located
    rw [listed] at member
    rcases List.mem_pair.mp member with here | here
    all_goals
      cases here
      decide) 0 regionSize 1 1 (by decide) (by decide) (by decide) emptyDevice after flushed
  exact ⟨after, loaded, flushed, ok, same⟩

end Mimisbrunnr.Index
