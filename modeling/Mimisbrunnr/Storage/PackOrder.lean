import Mimisbrunnr.Lib.BitOrder
import Mimisbrunnr.Storage.PackRoundTrip

/-!
# The order of packed keys

Packed keys are compared as bytes, without taking them apart. Under a format
that covers the keys this is the order of their fields: each field is written
as its distance from one base, in one width for all keys, and the widths add up
to the same place of every field in every key.
-/

namespace Mimisbrunnr.Storage

set_option autoImplicit false

open Mimisbrunnr.Lib
open Mimisbrunnr.Lib.Layout

variable {κ : Type}

def comparePackedKeys (left right : List UInt8) : Ordering := compare left right

/-- The packed keys of the entries behind a descriptor, as slices of their bytes. -/
def packedKeySlices (head : SortedRunKeyFormat) (fields : List FieldFormat) (valueSize : Nat) :
    Nat → List UInt8 → Except PackError (List (List UInt8))
  | 0, _ => .ok []
  | count + 1, bytes => do
      let (tailLength, rest) ← readTailLength head valueSize (bytes.drop (bytesPerKey head fields))
      let later ← packedKeySlices head fields valueSize count (rest.drop tailLength)
      .ok (bytes.take (bytesPerKey head fields) :: later)

private theorem compare_values (left right : UInt64) :
    compare left right = compare left.toNat right.toNat := by
  have order : compare left right = compareOfLessAndEq left right := rfl
  have number : compare left.toNat right.toNat =
      compareOfLessAndEq left.toNat right.toNat := rfl
  rw [order, number, compareOfLessAndEq, compareOfLessAndEq]
  simp only [UInt64.lt_iff_toNat_lt, ← UInt64.toNat_inj]

/-- What is written of a covered field is its distance from the base. -/
theorem field_bits_of_covers (field : FieldFormat) (value : UInt64) (covers : field.Covers value) :
    fieldBits field value =
        .ok (BitStream.bitsOf (value.toNat - field.base.toNat) field.bitWidth.toNat) ∧
      field.base.toNat ≤ value.toNat ∧
      value.toNat - field.base.toNat < 2 ^ field.bitWidth.toNat := by
  have above := UInt64.le_iff_toNat_le.mp covers.1
  have fit := covers.2
  unfold FieldFormat.Fits at fit
  unfold fieldBits
  by_cases constant : field.bitWidth = 0
  · rw [if_pos constant] at fit ⊢
    rw [if_neg (by simp [fit]), fit, constant]
    exact ⟨rfl, Nat.le_refl _, by simp⟩
  · rw [if_neg constant] at fit ⊢
    rw [if_neg (Nat.not_le.mpr fit)]
    rw [UInt64.toNat_sub_of_le value field.base covers.1] at fit ⊢
    exact ⟨rfl, above, fit⟩

private theorem compare_field_bits (field : FieldFormat) (value value' : UInt64)
    (covers : field.Covers value) (covers' : field.Covers value') :
    compare (BitStream.bitsOf (value.toNat - field.base.toNat) field.bitWidth.toNat)
        (BitStream.bitsOf (value'.toNat - field.base.toNat) field.bitWidth.toNat) =
      compare value value' := by
  obtain ⟨_, above, fits⟩ := field_bits_of_covers field value covers
  obtain ⟨_, above', fits'⟩ := field_bits_of_covers field value' covers'
  rw [BitStream.compare_bits_of, Nat.mod_eq_of_lt fits, Nat.mod_eq_of_lt fits', compare_values]
  rcases Nat.lt_trichotomy value.toNat value'.toNat with less | same | greater
  · rw [Nat.compare_eq_lt.mpr less, Nat.compare_eq_lt.mpr (by omega)]
  · rw [same, Nat.compare_eq_eq.mpr rfl, Nat.compare_eq_eq.mpr rfl]
  · rw [Nat.compare_eq_gt.mpr greater, Nat.compare_eq_gt.mpr (by omega)]

/-- Covered keys have bits of one length, in the order of their fields. -/
theorem compare_key_bits (fields : List FieldFormat) (values : List UInt64)
    (covers : List.Forall₂ FieldFormat.Covers fields values) :
    ∀ values', List.Forall₂ FieldFormat.Covers fields values' →
      ∀ bits bits', keyBits fields values = .ok bits → keyBits fields values' = .ok bits' →
        bits.length = bits'.length ∧ compare bits bits' = compare values values' := by
  induction covers with
  | nil =>
      intro values' covers' bits bits' written written'
      cases covers'
      cases written
      cases written'
      exact ⟨rfl, rfl⟩
  | @cons field value fields values here later ih =>
      intro values' covers' bits bits' written written'
      cases covers' with
      | @cons _ value' _ values' here' later' =>
          have first := (field_bits_of_covers field value here).1
          have first' := (field_bits_of_covers field value' here').1
          obtain ⟨rest, tail, _, _⟩ := key_bits_ok fields values (later.imp fun _ _ both => both.2)
          obtain ⟨rest', tail', _, _⟩ :=
            key_bits_ok fields values' (later'.imp fun _ _ both => both.2)
          simp only [keyBits, first, tail, bind, Except.bind] at written
          simp only [keyBits, first', tail', bind, Except.bind] at written'
          cases written
          cases written'
          obtain ⟨same, order⟩ := ih values' later' rest rest' tail tail'
          constructor
          · rw [List.length_append, List.length_append, BitStream.length_bits_of,
              BitStream.length_bits_of, same]
          · rw [BitStream.compare_append _ _ _ _ (by
              rw [BitStream.length_bits_of, BitStream.length_bits_of]),
              compare_field_bits field value value' here here', order, List.compare_cons_cons]

/-- The bytes of covered keys are in the order of their fields. -/
theorem compare_key_bytes (fields : List FieldFormat) (values values' : List UInt64)
    (covers : List.Forall₂ FieldFormat.Covers fields values)
    (covers' : List.Forall₂ FieldFormat.Covers fields values') (bits bits' : List Bool)
    (written : keyBits fields values = .ok bits) (written' : keyBits fields values' = .ok bits') :
    comparePackedKeys (BitStream.toBytes bits) (BitStream.toBytes bits') =
      compare values values' := by
  obtain ⟨same, order⟩ :=
    compare_key_bits fields values covers values' covers' bits bits' written written'
  rw [comparePackedKeys, BitStream.compare_to_bytes bits bits' same, order]

private theorem encode_entry_parts (shape : PackableKey κ) (head : SortedRunKeyFormat)
    (fields : List FieldFormat) (entry : κ × List UInt8) (bytes : List UInt8)
    (encoded : encodeEntry shape head fields entry = .ok bytes) :
    ∃ bits, keyBits fields (shape.fieldValues entry.1) = .ok bits ∧
      bytes = leBytes head.keyHeaderBytes.toNat (shape.keyHeader entry.1).toNat ++
        BitStream.toBytes bits ++
        (if head.valueSizeKind = ValueSizeKind.varint.toU8 then
          BitStream.varint (entry.2.drop head.commonValuePrefix.toNat).length else []) ++
        entry.2.drop head.commonValuePrefix.toNat := by
  cases written : keyBits fields (shape.fieldValues entry.1) with
  | error err =>
      simp only [encodeEntry, written, bind, Except.bind] at encoded
      cases encoded
  | ok bits =>
      simp only [encodeEntry, written, bind, Except.bind] at encoded
      exact ⟨bits, rfl, (Except.ok.inj encoded).symm⟩

/-- Without key headers the slices are the bytes of the keys' bits. -/
theorem packed_key_slices_of_encoded (shape : PackableKey κ) (head : SortedRunKeyFormat)
    (fields : List FieldFormat) (valueSize : Nat) (bare : head.keyHeaderBytes.toNat = 0)
    (kind : knownKind head.valueSizeKind = true) (entries : List (κ × List UInt8))
    (fits : ∀ entry ∈ entries, List.Forall₂ FieldFormat.Fits fields (shape.fieldValues entry.1))
    (short : ∀ entry ∈ entries, entry.2.length < 2 ^ 64)
    (size : head.valueSizeKind = ValueSizeKind.fixed.toU8 →
      ∀ entry ∈ entries, entry.2.length = valueSize) :
    ∀ bytes, encodeEntries shape head fields entries = .ok bytes →
      ∃ slices, packedKeySlices head fields valueSize entries.length bytes = .ok slices ∧
        List.Forall₂ (fun entry slice => ∃ bits,
          keyBits fields (shape.fieldValues entry.1) = .ok bits ∧
            slice = BitStream.toBytes bits) entries slices := by
  induction entries with
  | nil =>
      intro bytes _
      exact ⟨[], rfl, .nil⟩
  | cons entry entries ih =>
      intro bytes encoded
      cases here : encodeEntry shape head fields entry with
      | error err =>
          simp only [encodeEntries, here, bind, Except.bind] at encoded
          cases encoded
      | ok first =>
          cases later : encodeEntries shape head fields entries with
          | error err =>
              simp only [encodeEntries, here, later, bind, Except.bind] at encoded
              cases encoded
          | ok more =>
              simp only [encodeEntries, here, later, bind, Except.bind] at encoded
              cases encoded
              obtain ⟨bits, written, parts⟩ := encode_entry_parts shape head fields entry first here
              obtain ⟨slices, sliced, related⟩ := ih
                (fun other member => fits other (List.mem_cons_of_mem entry member))
                (fun other member => short other (List.mem_cons_of_mem entry member))
                (fun fixed other member => size fixed other (List.mem_cons_of_mem entry member))
                more later
              obtain ⟨_, again, width, _⟩ := key_bits_ok fields _ (fits entry List.mem_cons_self)
              rw [written] at again
              cases again
              have body : (BitStream.toBytes bits).length = bytesPerKey head fields := by
                rw [BitStream.length_to_bytes, width, bytesPerKey, bare, Nat.zero_add]
              have tail := read_tail_length_back head valueSize kind entry.2
                (short entry List.mem_cons_self) (fun fixed => size fixed entry List.mem_cons_self)
                more
              have order : first ++ more = BitStream.toBytes bits ++
                  ((if head.valueSizeKind = ValueSizeKind.varint.toU8 then
                    BitStream.varint (entry.2.drop head.commonValuePrefix.toNat).length else []) ++
                    (entry.2.drop head.commonValuePrefix.toNat ++ more)) := by
                rw [parts, bare, leBytes, List.nil_append, List.append_assoc, List.append_assoc]
              refine ⟨BitStream.toBytes bits :: slices, ?_, .cons ⟨bits, written, rfl⟩ related⟩
              rw [List.length_cons, packedKeySlices, order, List.drop_left' body,
                List.take_left' body, tail]
              simp only [bind, Except.bind, List.drop_left, sliced]

/-- The packed keys of a run written under the format chosen for it are in the order of their
fields. The bound on the values is that of a length in memory. -/
theorem packed_order_is_key_order (shape : PackableKey κ)
    (sized : ∀ key, (shape.fieldValues key).length = shape.nrFields)
    (bare : shape.keyHeaderBytes = 0) (entries : List (κ × List UInt8)) (forceVarint : Bool)
    (short : ∀ entry ∈ entries, entry.2.length < 2 ^ 64) (head : SortedRunKeyFormat)
    (fields : List FieldFormat) (valuePrefix payload : List UInt8)
    (selected : selectFormatWithHint shape entries forceVarint = .ok (head, fields, valuePrefix))
    (encoded : encodePackedRun shape entries head fields valuePrefix = .ok payload)
    (valueSize : Nat) (size : head.valueSizeKind = ValueSizeKind.fixed.toU8 →
      ∀ entry ∈ entries, entry.2.length = valueSize) :
    ∃ slices, packedKeySlices head fields valueSize entries.length
        (payload.drop head.totalSize) = .ok slices ∧
      slices.length = entries.length ∧
      ∀ (index index' : Nat) (entry entry' : κ × List UInt8) (slice slice' : List UInt8),
        entries[index]? = some entry → entries[index']? = some entry' →
        slices[index]? = some slice → slices[index']? = some slice' →
        comparePackedKeys slice slice' =
          compare (shape.fieldValues entry.1) (shape.fieldValues entry'.1) := by
  obtain ⟨isFields, hints, header, number⟩ := select_format_ok shape entries forceVarint head fields
    valuePrefix selected
  obtain ⟨count, length, kind, _, _, body, written, rfl⟩ :=
    (encode_packed_run_ok shape entries _ _ _ payload).mp encoded
  have covers : ∀ entry ∈ entries,
      List.Forall₂ FieldFormat.Covers fields (shape.fieldValues entry.1) := by
    intro entry member
    rw [isFields]
    exact select_fields_cover shape hints sized _ entry.1 (List.mem_map_of_mem member)
  obtain ⟨slices, sliced, related⟩ := packed_key_slices_of_encoded shape head fields valueSize
    (header.trans bare) kind entries
    (fun entry member => (covers entry member).imp fun _ _ both => both.2) short size body written
  refine ⟨slices, ?_, related.length_eq.symm, ?_⟩
  · rw [(parse_serialise _ _ _ body (count.trans number.symm) length).2]
    exact sliced
  · intro index index' entry entry' slice slice' here here' found found'
    have relatedAt (place : Nat) (item : κ × List UInt8) (bytes : List UInt8)
        (isItem : entries[place]? = some item) (isSlice : slices[place]? = some bytes) :
        ∃ bits, keyBits fields (shape.fieldValues item.1) = .ok bits ∧
          bytes = BitStream.toBytes bits := by
      obtain ⟨inside, same⟩ := List.getElem?_eq_some_iff.mp isItem
      obtain ⟨inside', same'⟩ := List.getElem?_eq_some_iff.mp isSlice
      have both := (List.forall₂_iff_get.mp related).2 place inside inside'
      rw [List.get_eq_getElem, List.get_eq_getElem, same, same'] at both
      exact both
    obtain ⟨bits, keyWritten, isBytes⟩ := relatedAt index entry slice here found
    obtain ⟨bits', keyWritten', isBytes'⟩ := relatedAt index' entry' slice' here' found'
    rw [isBytes, isBytes']
    exact compare_key_bytes _ _ _ (covers entry (List.mem_of_getElem? here))
      (covers entry' (List.mem_of_getElem? here')) bits bits' keyWritten keyWritten'

/-- Pairs of numbers as keys. -/
def PackableKey.u32Pair : PackableKey (UInt32 × UInt32) where
  nrFields := 2
  keyHeaderBytes := 0
  fieldHints := [FieldHints.unsigned, FieldHints.unsigned]
  keyHeader _ := 0
  fieldValues key := [key.1.toUInt64, key.2.toUInt64]
  fromComponents _ fields :=
    match fields with
    | [first, second] =>
        if UInt64.ofNat (2 ^ 32 - 1) < first ∨ UInt64.ofNat (2 ^ 32 - 1) < second then
          .error (.malformed "(u32, u32): u32 field overflow")
        else .ok (first.toUInt32, second.toUInt32)
    | _ => .error (.malformed "(u32, u32): wrong field count")

/-- Three keys of two fields in three and ten bits, over the bounds of bytes. -/
theorem packed_order_of_pairs :
    ∃ slices, packedKeySlices ⟨2, 0, 0, 1, 13⟩ [⟨3, 0, 4⟩, ⟨10, 0, 130⟩] 0 3
        [32, 0, 1, 9, 17, 208, 0, 160, 8, 0] = .ok slices ∧
      slices.length = 3 ∧
      ∀ (index index' : Nat) (entry entry' : (UInt32 × UInt32) × List UInt8)
        (slice slice' : List UInt8),
        [((5, 130), [9]), ((4, 700), []), ((9, 131), [])][index]? = some entry →
        [((5, 130), [9]), ((4, 700), []), ((9, 131), [])][index']? = some entry' →
        slices[index]? = some slice → slices[index']? = some slice' →
        comparePackedKeys slice slice' =
          compare [entry.1.1.toUInt64, entry.1.2.toUInt64]
            [entry'.1.1.toUInt64, entry'.1.2.toUInt64] := by
  have found := packed_order_is_key_order PackableKey.u32Pair (fun _ => rfl) rfl
    [((5, 130), [9]), ((4, 700), []), ((9, 131), [])] false (by decide) ⟨2, 0, 0, 1, 13⟩
    [⟨3, 0, 4⟩, ⟨10, 0, 130⟩] []
    [2, 0, 0, 1, 13, 0, 0, 0, 3, 0, 0, 0, 4, 0, 0, 0, 0, 0, 0, 0, 0, 0, 0, 0, 10, 0, 0, 0, 130, 0,
      0, 0, 0, 0, 0, 0, 0, 0, 0, 0, 32, 0, 1, 9, 17, 208, 0, 160, 8, 0]
    (by decide +kernel) (by decide +kernel) 0 (by decide)
  have behind : List.drop (SortedRunKeyFormat.totalSize ⟨2, 0, 0, 1, 13⟩)
      [2, 0, 0, 1, 13, 0, 0, 0, 3, 0, 0, 0, 4, 0, 0, 0, 0, 0, 0, 0, 0, 0, 0, 0, 10, 0, 0, 0, 130, 0,
        0, 0, 0, 0, 0, 0, 0, 0, 0, 0, 32, 0, 1, 9, 17, 208, 0, 160, 8, 0] =
      ([32, 0, 1, 9, 17, 208, 0, 160, 8, 0] : List UInt8) := by
    decide +kernel
  rw [behind] at found
  exact found

end Mimisbrunnr.Storage
