import Mathlib.Data.Finset.Lattice.Fold
import Mathlib.Logic.Equiv.Finset
import Mathlib.Order.Lattice.Nat
import Mimisbrunnr.Storage.RootPointer

/-!
# Bitmap pages

A bitmap is stored as its portable image, cut into pages of 4 KiB that are
linked by block references. The library that makes the image of a bitmap and
reads it back is a parameter.
-/

namespace Mimisbrunnr.Index

set_option autoImplicit false

open Mimisbrunnr.Lib.ByteStore
open Mimisbrunnr.Lib.Layout
open Mimisbrunnr.Storage

inductive TagBitmapPageError where
  | crcMismatch (expected actual : UInt32)
  | invalidMagic (actual : List UInt8)
  | invalidBlockKind (kind : UInt16)
  | invalidFormatVersion (version : UInt16)
  | oversize (got : Nat)
  | roaring (message : String)
  | io
deriving DecidableEq, Repr

/-- An error of a page is carried as it is where the program keeps its text. -/
inductive IndexError where
  | bufferTooSmall (need have_ : Nat)
  | assertionCountOverflow (count : Nat)
  | invalidAssertionKind (kind : UInt8)
  | invalidAssertionOrigin (origin : UInt8)
  | tagNotFound
  | objectNotFound
  | cborEncode (message : String)
  | cborDecode (message : String)
  | roaring (message : String)
  | page (err : TagBitmapPageError)
  | storage (err : StorageError)
  | unsupportedStoreKind (kind : UInt8)
  | cardinalityOverflow (count : Nat)
  | bitmapAreaExhausted (needed cap : Nat)
  | corruptOverflowChain (message : String)
  | overflowAreaExhausted (needed cap : Nat)
deriving DecidableEq, Repr

/-- The portable serialisation of bitmaps. An image starts with a cookie. -/
structure Roaring where
  serialise : Finset Nat → List UInt8
  deserialise : List UInt8 → Except String (Finset Nat)
  back : ∀ set, deserialise (serialise set) = .ok set
  cookie : ∀ set, serialise set ≠ []

def tagBitmapPageMaxBytes : Nat := 4036

def tagBitmapPageFormatVersion : UInt16 := 1

/-- The fields before the checksum. -/
structure TagBitmapPage where
  header : BlockHeader
  bitmapLen : UInt32
  nextPage : BlockRef
  bitmapBytes : List.Vector UInt8 tagBitmapPageMaxBytes
  pad : List.Vector UInt8 4

namespace TagBitmapPage

def body : Pod TagBitmapPage :=
  (BlockHeader.layout.prod <| Pod.u32.prod <| BlockRef.layout.prod <|
    (Pod.array tagBitmapPageMaxBytes).prod (Pod.array 4)).map
    (fun (header, bitmapLen, nextPage, bitmapBytes, pad) =>
      { header, bitmapLen, nextPage, bitmapBytes, pad })
    (fun page => (page.header, page.bitmapLen, page.nextPage, page.bitmapBytes, page.pad))
    (fun _ => rfl)

theorem body_size : body.size = 4092 := rfl

def fromBytesChunk (chunk : List UInt8) (nextPage : BlockRef) : TagBitmapPage :=
  { header := BlockHeader.new .tagBitmapPage tagBitmapPageFormatVersion 4060
    bitmapLen := UInt32.ofNat chunk.length
    nextPage := nextPage
    bitmapBytes := (Pod.array tagBitmapPageMaxBytes).ofBytes chunk
    pad := List.Vector.replicate 4 0 }

def bitmapSlice (page : TagBitmapPage) : List UInt8 :=
  page.bitmapBytes.toList.take page.bitmapLen.toNat

/-- A bitmap whose image fits one page. -/
def fromBitmap (roaring : Roaring) (bitmap : Finset Nat) :
    Except TagBitmapPageError TagBitmapPage :=
  let bytes := roaring.serialise bitmap
  if tagBitmapPageMaxBytes < bytes.length then .error (.oversize bytes.length)
  else .ok (fromBytesChunk bytes BlockRef.zero)

def toBitmap (roaring : Roaring) (page : TagBitmapPage) : Except TagBitmapPageError (Finset Nat) :=
  if tagBitmapPageMaxBytes < page.bitmapLen.toNat then .error (.oversize page.bitmapLen.toNat)
  else (roaring.deserialise page.bitmapSlice).mapError .roaring

def validate (page : TagBitmapPage) : Except TagBitmapPageError Unit :=
  if page.header.magic ≠ blockMagic then .error (.invalidMagic page.header.magic.toList)
  else if page.header.kind ≠ BlockKind.tagBitmapPage.toU16 then
    .error (.invalidBlockKind page.header.kind)
  else if page.header.formatVersion ≠ tagBitmapPageFormatVersion then
    .error (.invalidFormatVersion page.header.formatVersion)
  else .ok ()

def write (crc : Crc) (page : TagBitmapPage) (offset : Nat) : DeviceM TagBitmapPageError Unit :=
  (DeviceM.writeAt offset (sealed crc body page)).mapError fun _ => .io

def read (crc : Crc) (d : Device) (offset : Nat) : Except TagBitmapPageError TagBitmapPage :=
  match d.readAt offset blockSize with
  | .error _ => .error .io
  | .ok bytes => do
      validate (bodyOf body bytes)
      match brokenSeal crc body bytes with
      | some (expected, actual) => .error (.crcMismatch expected actual)
      | none => .ok (bodyOf body bytes)

theorem bitmap_slice_chunk (chunk : List UInt8) (nextPage : BlockRef)
    (fits : chunk.length ≤ tagBitmapPageMaxBytes) :
    (fromBytesChunk chunk nextPage).bitmapSlice = chunk := by
  have bytes : (fromBytesChunk chunk nextPage).bitmapBytes.toList =
      (chunk ++ List.replicate tagBitmapPageMaxBytes 0).take tagBitmapPageMaxBytes := rfl
  have length : (fromBytesChunk chunk nextPage).bitmapLen.toNat = chunk.length := by
    rw [fromBytesChunk, UInt32.toNat_ofNat']
    apply Nat.mod_eq_of_lt
    rw [tagBitmapPageMaxBytes] at fits
    omega
  rw [bitmapSlice, bytes, length, List.take_take, Nat.min_eq_left fits, List.take_left]

private theorem validate_chunk (chunk : List UInt8) (nextPage : BlockRef) :
    (fromBytesChunk chunk nextPage).validate = .ok () := by
  simp [validate, fromBytesChunk, BlockHeader.new]

theorem to_bitmap_from_bitmap (roaring : Roaring) (bitmap : Finset Nat) (page : TagBitmapPage)
    (made : fromBitmap roaring bitmap = .ok page) :
    page = fromBytesChunk (roaring.serialise bitmap) BlockRef.zero ∧
      page.toBitmap roaring = .ok bitmap := by
  unfold fromBitmap at made
  dsimp only at made
  split at made
  · cases made
  · next fits =>
      cases made
      have short : (roaring.serialise bitmap).length ≤ tagBitmapPageMaxBytes := Nat.le_of_not_lt fits
      have length : (fromBytesChunk (roaring.serialise bitmap) BlockRef.zero).bitmapLen.toNat =
          (roaring.serialise bitmap).length := by
        rw [fromBytesChunk, UInt32.toNat_ofNat']
        apply Nat.mod_eq_of_lt
        rw [tagBitmapPageMaxBytes] at short
        omega
      refine ⟨rfl, ?_⟩
      rw [toBitmap, length, if_neg fits, bitmap_slice_chunk _ _ short, roaring.back]
      rfl

theorem write_failed (crc : Crc) (page : TagBitmapPage) (offset : Nat) (err : TagBitmapPageError)
    (d after : Device) (failed : write crc page offset d = (.error err, after)) : err = .io := by
  unfold write DeviceM.mapError at failed
  split at failed
  · cases failed
  · cases failed
    rfl

theorem from_bitmap_ok (roaring : Roaring) (bitmap : Finset Nat)
    (fits : (roaring.serialise bitmap).length ≤ tagBitmapPageMaxBytes) :
    fromBitmap roaring bitmap =
      .ok (fromBytesChunk (roaring.serialise bitmap) BlockRef.zero) := by
  unfold fromBitmap
  exact if_neg (Nat.not_lt.mpr fits)

theorem read_agrees (crc : Crc) (offset : Nat) {d e : Device}
    (agrees : AgreesOn offset blockSize d e) : read crc e offset = read crc d offset := by
  rw [read, read, read_at_agrees agrees (Nat.le_refl _) (Nat.le_refl _)]

/-- A page that was written is read back where the bytes are the same. -/
theorem page_read_back (crc : Crc) (chunk : List UInt8) (nextPage : BlockRef) (offset : Nat)
    (d after : Device)
    (ok : write crc (fromBytesChunk chunk nextPage) offset d = (.ok (), after)) :
    ChangesWithin offset blockSize d after ∧
      ∀ e, AgreesOn offset blockSize after e →
        read crc e offset = .ok (fromBytesChunk chunk nextPage) := by
  have stored := sealed_read_back crc body rfl _ offset d after
    (DeviceM.map_error_ok _ _ _ _ _ ok)
  refine ⟨stored.1, ?_⟩
  intro e agrees
  rw [read, stored.2 e agrees]
  dsimp only
  rw [body_of_sealed, validate_chunk, broken_seal_sealed]
  rfl

end TagBitmapPage

def ascending (set : Finset Nat) : List Nat := (List.range (set.sup id + 1)).filter (· ∈ set)

private theorem to_finset_ascending (set : Finset Nat) : (ascending set).toFinset = set := by
  ext number
  simp only [ascending, List.mem_toFinset, List.mem_filter, List.mem_range, decide_eq_true_eq]
  constructor
  · exact And.right
  · intro member
    exact ⟨Nat.lt_succ_of_le (Finset.le_sup (f := id) member), member⟩

private theorem length_ascending (set : Finset Nat) : (ascending set).length = set.card := by
  have once : (ascending set).Nodup := List.nodup_range.filter _
  rw [← List.toFinset_card_of_nodup once, to_finset_ascending]

/-- The portable image of numbers below 2^16, not more than 4096 of them: one array container. -/
def containerImage (set : Finset Nat) : List UInt8 :=
  [0x3a, 0x30, 0, 0, 1, 0, 0, 0, 0, 0] ++ Pod.u16.toBytes (UInt16.ofNat (set.card - 1)) ++
    [16, 0, 0, 0] ++ Pod.u16.packAll ((ascending set).map UInt16.ofNat)

private theorem container_split (set : Finset Nat) :
    ∃ front, front.length = 16 ∧ front.headD 0 = 0x3a ∧
      containerImage set = front ++ Pod.u16.packAll ((ascending set).map UInt16.ofNat) := by
  refine ⟨_, ?_, rfl, rfl⟩
  rw [List.length_append, List.length_append, Pod.length_to_bytes]
  rfl

@[simp] theorem length_container_image (set : Finset Nat) :
    (containerImage set).length = 16 + 2 * set.card := by
  obtain ⟨front, sixteen, -, image⟩ := container_split set
  have size : Pod.u16.size = 2 := rfl
  rw [image, List.length_append, sixteen, Pod.length_pack_all, List.length_map, length_ascending,
    size, Nat.mul_comm]

/-- Bitmaps of one array container, and the empty one, in the portable format. Any other bitmap has
its number in unary. -/
def sampleRoaring : Roaring where
  serialise set :=
    if set = ∅ then [0x3a, 0x30, 0, 0, 0, 0, 0, 0]
    else if set.sup id < 2 ^ 16 ∧ set.card ≤ 4096 then containerImage set
    else 1 :: List.replicate (Encodable.encode set) 0
  deserialise bytes :=
    if bytes.headD 0 = 0x3a then
      .ok ((Pod.u16.unpackAll ((bytes.length - 16) / 2) (bytes.drop 16)).map UInt16.toNat).toFinset
    else
      match Encodable.decode (bytes.length - 1) with
      | some set => .ok set
      | none => .error "unknown cookie"
  back set := by
    by_cases empty : set = ∅
    · rw [if_pos empty, empty]
      rfl
    rw [if_neg empty]
    by_cases small : set.sup id < 2 ^ 16 ∧ set.card ≤ 4096
    · obtain ⟨front, sixteen, cookie, image⟩ := container_split set
      have count : ((containerImage set).length - 16) / 2 =
          ((ascending set).map UInt16.ofNat).length := by
        rw [length_container_image, List.length_map, length_ascending]
        omega
      have head : (containerImage set).headD 0 = 0x3a := by
        rw [image]
        cases front with
        | nil => cases sixteen
        | cons first rest => exact cookie
      have numbers := Pod.unpack_pack_all Pod.u16 ((ascending set).map UInt16.ofNat) []
      rw [List.append_nil] at numbers
      have narrow : ∀ number ∈ ascending set, (UInt16.toNat ∘ UInt16.ofNat) number = number := by
        intro number member
        have listed : number ∈ set := by
          rw [← to_finset_ascending set]
          exact List.mem_toFinset.mpr member
        have below := Finset.le_sup (f := id) listed
        dsimp only [id] at below
        rw [Function.comp_apply, UInt16.toNat_ofNat']
        omega
      rw [if_pos small, if_pos head, count, image, List.drop_left' sixteen, numbers, List.map_map,
        List.map_congr_left narrow, List.map_id'', to_finset_ascending]
      exact fun _ => rfl
    · rw [if_neg small, List.headD_cons, if_neg (by decide), List.length_cons,
        List.length_replicate, Nat.add_sub_cancel, Encodable.encodek]
  cookie set := by
    split
    · exact List.cons_ne_nil _ _
    · split
      · exact List.cons_ne_nil _ _
      · exact List.cons_ne_nil _ _

theorem length_sample_serialise (set : Finset Nat) (some_member : set ≠ ∅)
    (small : set.sup id < 2 ^ 16 ∧ set.card ≤ 4096) :
    (sampleRoaring.serialise set).length = 16 + 2 * set.card := by
  unfold sampleRoaring
  dsimp only
  rw [if_neg some_member, if_pos small, length_container_image]

def emptyDevice : Device :=
  { bytes := fun _ => 0, capacity := 2 ^ 20, readOnly := false, faults := [] }

end Mimisbrunnr.Index
