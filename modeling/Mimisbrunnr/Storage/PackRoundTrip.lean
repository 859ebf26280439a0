import Mathlib.Data.List.Forall2
import Mathlib.Data.List.TakeWhile
import Mimisbrunnr.Storage.Pack

/-!
# Packed runs are read back

The format chosen for a run fits each of its keys, the descriptor is read back
from the start of the payload, and the entries behind it are read back one by
one.
-/

namespace Mimisbrunnr.Storage

set_option autoImplicit false

open Mimisbrunnr.Lib
open Mimisbrunnr.Lib.Layout

variable {κ : Type}

section

variable (R : UInt64 → UInt64 → Prop) (pick : UInt64 → UInt64 → UInt64)

private theorem forall2_zip_with (left : ∀ value bound, R (pick value bound) value)
    (right : ∀ value bound, R (pick value bound) bound) :
    ∀ values bounds : List UInt64, values.length = bounds.length →
      List.Forall₂ R (List.zipWith pick values bounds) values ∧
        List.Forall₂ R (List.zipWith pick values bounds) bounds := by
  intro values
  induction values with
  | nil =>
      intro bounds same
      have none : bounds = [] := List.eq_nil_of_length_eq_zero same.symm
      subst none
      exact ⟨.nil, .nil⟩
  | cons value values ih =>
      intro bounds same
      cases bounds with
      | nil => cases same
      | cons bound bounds =>
          have tails := ih bounds (Nat.succ.inj same)
          exact ⟨.cons (left value bound) tails.1, .cons (right value bound) tails.2⟩

private theorem forall2_trans (trans : ∀ a b c, R a b → R b c → R a c) {first second : List UInt64}
    (head : List.Forall₂ R first second) :
    ∀ third, List.Forall₂ R second third → List.Forall₂ R first third := by
  induction head with
  | nil =>
      intro third tail
      cases tail
      exact .nil
  | cons related _ ih =>
      intro third tail
      cases tail with
      | cons next rest => exact .cons (trans _ _ _ related next) (ih _ rest)

/-- A bound folded over the keys bounds the start and every key. -/
theorem fold_bounds (shape : PackableKey κ)
    (sized : ∀ key, (shape.fieldValues key).length = shape.nrFields) (refl : ∀ a, R a a)
    (trans : ∀ a b c, R a b → R b c → R a c) (left : ∀ value bound, R (pick value bound) value)
    (right : ∀ value bound, R (pick value bound) bound) (keys : List κ) :
    ∀ start : List UInt64, start.length = shape.nrFields →
      List.Forall₂ R (keys.foldl (fun bounds key =>
          List.zipWith pick (shape.fieldValues key) bounds) start) start ∧
        ∀ key ∈ keys, List.Forall₂ R (keys.foldl (fun bounds key =>
          List.zipWith pick (shape.fieldValues key) bounds) start) (shape.fieldValues key) := by
  induction keys with
  | nil =>
      intro start _
      refine ⟨?_, fun key member => absurd member List.not_mem_nil⟩
      rw [List.foldl_nil, List.forall₂_same]
      intro value _
      exact refl value
  | cons key keys ih =>
      intro start same
      have length := sized key
      have step := forall2_zip_with R pick left right (shape.fieldValues key) start
        (length.trans same.symm)
      have later := ih (List.zipWith pick (shape.fieldValues key) start) (by
        rw [List.length_zipWith, length, same, Nat.min_self])
      rw [List.foldl_cons]
      refine ⟨forall2_trans R trans later.1 _ step.2, ?_⟩
      intro other member
      cases List.mem_cons.mp member with
      | inl same =>
          subst same
          exact forall2_trans R trans later.1 _ step.1
      | inr elsewhere => exact later.2 other elsewhere

end

def FieldFormat.Fits (field : FieldFormat) (value : UInt64) : Prop :=
  if field.bitWidth = 0 then value = field.base
  else (value - field.base).toNat < 2 ^ field.bitWidth.toNat

private theorem fits_field_format (hints : FieldHints) (least greatest value : UInt64)
    (above : least ≤ value) (below : value ≤ greatest) :
    (fieldFormat hints least greatest).Fits value := by
  unfold FieldFormat.Fits fieldFormat
  rw [UInt64.le_iff_toNat_le] at above below
  by_cases constant : least = greatest
  · rw [if_pos constant, if_pos rfl]
    have same : value.toNat = least.toNat := by
      rw [← constant] at below
      omega
    exact UInt64.toNat.inj same
  · have ordered : least ≤ greatest := by
      rw [UInt64.le_iff_toNat_le]
      omega
    have different : least.toNat ≠ greatest.toNat := fun same => constant (UInt64.toNat.inj same)
    have span := UInt64.toNat_sub_of_le greatest least ordered
    have bound := greatest.toNat_lt
    have narrow : (greatest - least).toNat.log2 < 64 := by
      rw [Nat.log2_lt (by omega)]
      omega
    have width : (spanWidth (greatest - least)).toNat = (greatest - least).toNat.log2 + 1 := by
      rw [spanWidth, UInt8.toNat_ofNat']
      exact Nat.mod_eq_of_lt (by omega)
    have wide : spanWidth (greatest - least) ≠ 0 := by
      intro zero
      rw [zero] at width
      exact absurd width (by simp)
    rw [if_neg constant, if_neg wide, width,
      UInt64.toNat_sub_of_le value least (by rwa [UInt64.le_iff_toNat_le])]
    have top := Nat.lt_log2_self (n := (greatest - least).toNat)
    omega

def FieldFormat.Covers (field : FieldFormat) (value : UInt64) : Prop :=
  field.base ≤ value ∧ field.Fits value

private theorem cover_field_formats (hints : List FieldHints) :
    ∀ low high values : List UInt64, hints.length = values.length →
      List.Forall₂ (· ≤ ·) low values →
      List.Forall₂ (fun bound value => value ≤ bound) high values →
      List.Forall₂ FieldFormat.Covers (List.zipWith (fun hints bounds =>
        fieldFormat hints bounds.1 bounds.2) hints (low.zip high)) values := by
  induction hints with
  | nil =>
      intro low high values same _ _
      have none : values = [] := List.eq_nil_of_length_eq_zero same.symm
      subst none
      exact .nil
  | cons hint hints ih =>
      intro low high values same below above
      cases below with
      | nil => cases same
      | cons bottom lows =>
          cases above with
          | cons top highs =>
              exact .cons ⟨bottom, fits_field_format hint _ _ _ bottom top⟩
                (ih _ _ _ (Nat.succ.inj same) lows highs)

/-- The chosen fields cover every key. -/
theorem select_fields_cover (shape : PackableKey κ)
    (hints : shape.fieldHints.length = shape.nrFields)
    (sized : ∀ key, (shape.fieldValues key).length = shape.nrFields) (keys : List κ) (key : κ)
    (member : key ∈ keys) :
    List.Forall₂ FieldFormat.Covers (selectFields shape keys) (shape.fieldValues key) := by
  have some_key : keys.isEmpty = false := by
    cases keys with
    | nil => exact absurd member List.not_mem_nil
    | cons first rest => rfl
  let mins := fieldBounds shape (fun value bound => if value < bound then value else bound)
    (UInt64.ofNat (2 ^ 64 - 1)) keys
  let maxs := fieldBounds shape (fun value bound => if bound < value then value else bound) 0 keys
  have least : List.Forall₂ (· ≤ ·) mins (shape.fieldValues key) := by
    apply (fold_bounds (· ≤ ·) _ shape sized UInt64.le_refl (fun _ _ _ => UInt64.le_trans) _ _ keys
      (List.replicate shape.nrFields _) List.length_replicate).2 key member
    · intro value bound
      split
      · exact UInt64.le_refl _
      · next above => exact UInt64.not_lt.mp above
    · intro value bound
      split
      · next below => exact UInt64.le_of_lt below
      · exact UInt64.le_refl _
  have greatest : List.Forall₂ (fun bound value => value ≤ bound) maxs (shape.fieldValues key) := by
    apply (fold_bounds (fun bound value => value ≤ bound) _ shape sized UInt64.le_refl
      (fun _ _ _ first second => UInt64.le_trans second first) _ _ keys
      (List.replicate shape.nrFields _) List.length_replicate).2 key member
    · intro value bound
      split
      · exact UInt64.le_refl _
      · next above => exact UInt64.not_lt.mp above
    · intro value bound
      split
      · next below => exact UInt64.le_of_lt below
      · exact UInt64.le_refl _
  have chosen : selectFields shape keys =
      List.zipWith (fun hints bounds => fieldFormat hints bounds.1 bounds.2) shape.fieldHints
        (mins.zip maxs) := by
    rw [selectFields, some_key]
    rfl
  rw [chosen]
  exact cover_field_formats _ _ _ _ (hints.trans (sized key).symm) least greatest

theorem select_fields_fit (shape : PackableKey κ) (lawful : shape.Lawful) (keys : List κ) (key : κ)
    (member : key ∈ keys) :
    List.Forall₂ FieldFormat.Fits (selectFields shape keys) (shape.fieldValues key) :=
  (select_fields_cover shape lawful.length_hints lawful.length_fields keys key member).imp
    fun _ _ covers => covers.2

private theorem length_select_fields (shape : PackableKey κ) (lawful : shape.Lawful)
    (keys : List κ) :
    (selectFields shape keys).length = shape.nrFields := by
  cases keys with
  | nil =>
      rw [selectFields, if_pos (by rfl), List.length_map]
      exact lawful.length_hints
  | cons key keys =>
      have fits := select_fields_fit shape lawful (key :: keys) key List.mem_cons_self
      rw [fits.length_eq]
      exact lawful.length_fields key

/-- A key that fits has its bits, from which its fields are read back. -/
theorem key_bits_ok (fields : List FieldFormat) (values : List UInt64)
    (fits : List.Forall₂ FieldFormat.Fits fields values) :
    ∃ bits, keyBits fields values = .ok bits ∧ bits.length = dataBitsPerKey fields ∧
      ∀ before after, decodeFields (BitStream.toBytes (before ++ bits ++ after)) fields
        before.length = .ok values := by
  induction fits with
  | nil => exact ⟨[], rfl, rfl, fun _ _ => rfl⟩
  | @cons field value fields values fit _ ih =>
      obtain ⟨rest, written, length, decoded⟩ := ih
      unfold FieldFormat.Fits at fit
      by_cases constant : field.bitWidth = 0
      · rw [if_pos constant] at fit
        refine ⟨rest, ?_, ?_, ?_⟩
        · simp only [keyBits, fieldBits, constant, fit, ne_eq, not_true_eq_false, if_true,
            if_false, written]
          rfl
        · simp [dataBitsPerKey, constant, length]
        · intro before after
          simp only [decodeFields, readBits, constant, if_true, bind, Except.bind, decoded]
          rw [fit, UInt64.add_zero]
      · rw [if_neg constant] at fit
        have number : BitStream.ofBits
            (BitStream.bitsOf (value - field.base).toNat field.bitWidth.toNat) =
              (value - field.base).toNat := by
          rw [BitStream.of_bits_of, Nat.mod_eq_of_lt fit]
        refine ⟨BitStream.bitsOf (value - field.base).toNat field.bitWidth.toNat ++ rest, ?_, ?_, ?_⟩
        · simp only [keyBits, fieldBits, constant, if_false, Nat.not_le.mpr fit, written]
          rfl
        · simp [dataBitsPerKey, length]
        · intro before after
          have room : ¬ 8 * (BitStream.toBytes (before ++ (BitStream.bitsOf
              (value - field.base).toNat field.bitWidth.toNat ++ rest) ++ after)).length <
                before.length + field.bitWidth.toNat := by
            rw [BitStream.length_to_bytes]
            simp only [List.length_append, BitStream.length_bits_of]
            omega
          have found := BitStream.of_bits_part before
            (BitStream.bitsOf (value - field.base).toNat field.bitWidth.toNat) (rest ++ after)
          rw [BitStream.length_bits_of, number] at found
          have later := decoded (before ++ BitStream.bitsOf (value - field.base).toNat
            field.bitWidth.toNat) after
          rw [List.length_append, BitStream.length_bits_of] at later
          simp only [decodeFields, readBits, constant, if_false, room, bind, Except.bind]
          simp only [List.append_assoc] at found later ⊢
          rw [found, later, UInt64.ofNat_toNat, UInt64.add_comm, UInt64.sub_add_cancel]

private theorem foldl_min_le (lengths : List Nat) : ∀ start, lengths.foldl min start ≤ start := by
  induction lengths with
  | nil =>
      intro start
      exact Nat.le_refl start
  | cons length lengths ih =>
      intro start
      exact Nat.le_trans (ih (min start length)) (Nat.min_le_left start length)

theorem take_while_range (p : Nat → Bool) (bound index : Nat)
    (counted : index < ((List.range bound).takeWhile p).length) : p index = true := by
  have here : ((List.range bound).takeWhile p)[index] = index := by
    rw [(List.takeWhile_prefix p).getElem counted, List.getElem_range]
  have kept := List.mem_takeWhile_imp (List.getElem_mem counted)
  rwa [here] at kept

private theorem common_prefix_of_all (values : List (List UInt8)) (value : List UInt8)
    (member : value ∈ values) :
    value.take (commonPrefix values).length = commonPrefix values := by
  cases values with
  | nil => exact absurd member List.not_mem_nil
  | cons first rest =>
      simp only [commonPrefix]
      generalize bound : min ((rest.map List.length).foldl min first.length) 255 = maxLen
      have short : maxLen ≤ first.length := by
        rw [← bound]
        exact Nat.le_trans (Nat.min_le_left _ _) (foldl_min_le _ _)
      generalize counted : ((List.range maxLen).takeWhile fun j =>
        rest.all fun value => value[j]? == first[j]?).length = count
      have within : count ≤ first.length := by
        rw [← counted]
        have part := (List.takeWhile_prefix (l := List.range maxLen) fun j =>
          rest.all fun value => value[j]? == first[j]?).length_le
        rw [List.length_range] at part
        exact Nat.le_trans part short
      rw [List.length_take, Nat.min_eq_left within]
      cases List.mem_cons.mp member with
      | inl same => rw [same]
      | inr other =>
          apply List.ext_getElem?
          intro index
          cases Nat.lt_or_ge index count with
          | inl inside =>
              have agree := take_while_range _ maxLen index (by rw [counted]; exact inside)
              have here := List.all_eq_true.mp agree value other
              rw [List.getElem?_take_of_lt inside, List.getElem?_take_of_lt inside]
              exact eq_of_beq here
          | inr beyond =>
              rw [List.getElem?_take_eq_none beyond, List.getElem?_take_eq_none beyond]

private theorem length_common_prefix (values : List (List UInt8)) :
    (commonPrefix values).length ≤ 255 := by
  cases values with
  | nil => exact Nat.zero_le _
  | cons first rest =>
      simp only [commonPrefix, List.length_take]
      have part := (List.takeWhile_prefix
        (l := List.range (min ((rest.map List.length).foldl min first.length) 255)) fun j =>
          rest.all fun value => value[j]? == first[j]?).length_le
      rw [List.length_range] at part
      omega

theorem check_prefix_ok (valuePrefix : List UInt8) (values : List (List UInt8))
    (all : ∀ value ∈ values, value.take valuePrefix.length = valuePrefix) :
    checkPrefix valuePrefix values = .ok () := by
  induction values with
  | nil => rfl
  | cons value values ih =>
      have here := all value List.mem_cons_self
      have long : ¬ value.length < valuePrefix.length := by
        have length := congrArg List.length here
        rw [List.length_take] at length
        omega
      simp only [checkPrefix]
      rw [if_neg long, if_neg (by simp [here])]
      exact ih fun later member => all later (List.mem_cons_of_mem value member)

private theorem parse_fields_serialised (fields : List FieldFormat) (rest : List UInt8) :
    SortedRunKeyFormat.parseFields fields.length
      (fields.flatMap FieldFormat.layout.toBytes ++ rest) = fields := by
  induction fields with
  | nil => rfl
  | cons field fields ih =>
      rw [List.flatMap_cons, List.append_assoc, List.length_cons, SortedRunKeyFormat.parseFields,
        Pod.of_bytes_take, List.drop_left' (FieldFormat.layout.length_to_bytes field), ih]

private theorem length_flat_fields (fields : List FieldFormat) :
    (fields.flatMap FieldFormat.layout.toBytes).length =
      fields.length * FieldFormat.layout.size := by
  induction fields with
  | nil => simp
  | cons field fields ih =>
      rw [List.flatMap_cons, List.length_append, ih, FieldFormat.layout.length_to_bytes,
        List.length_cons, Nat.succ_mul, Nat.add_comm]

/-- The descriptor is read back, and the entries follow it. -/
theorem parse_serialise (head : SortedRunKeyFormat) (fields : List FieldFormat)
    (valuePrefix rest : List UInt8) (count : fields.length = head.nrFields.toNat)
    (length : valuePrefix.length = head.commonValuePrefix.toNat) :
    SortedRunKeyFormat.parse (head.serialise fields valuePrefix ++ rest) =
        .ok (head, fields, valuePrefix) ∧
      (head.serialise fields valuePrefix ++ rest).drop head.totalSize = rest := by
  have first := SortedRunKeyFormat.layout.length_to_bytes head
  have second := length_flat_fields fields
  have ends : head.fieldsEnd =
      (SortedRunKeyFormat.layout.toBytes head ++
        fields.flatMap FieldFormat.layout.toBytes).length := by
    rw [List.length_append, first, second, count]
    rfl
  have total : head.totalSize = (head.serialise fields valuePrefix).length := by
    rw [SortedRunKeyFormat.totalSize, ends, ← length]
    exact List.length_append.symm
  have order : head.serialise fields valuePrefix ++ rest =
      SortedRunKeyFormat.layout.toBytes head ++
        (fields.flatMap FieldFormat.layout.toBytes ++ (valuePrefix ++ rest)) := by
    simp only [SortedRunKeyFormat.serialise, List.append_assoc]
  have read : SortedRunKeyFormat.layout.ofBytes
      ((head.serialise fields valuePrefix ++ rest).take SortedRunKeyFormat.layout.size) = head := by
    rw [order]
    exact Pod.of_bytes_take _ _ _
  have enough : ¬ (head.serialise fields valuePrefix ++ rest).length < head.totalSize := by
    rw [total, List.length_append]
    omega
  have some_bytes : ¬ (head.serialise fields valuePrefix ++ rest).length <
      SortedRunKeyFormat.layout.size := by
    rw [order, List.length_append, first]
    omega
  constructor
  · rw [SortedRunKeyFormat.parse, if_neg some_bytes]
    simp only [read]
    rw [if_neg enough, ends, order, List.drop_left' first, ← count, parse_fields_serialised,
      ← List.append_assoc, List.drop_left, ← length, List.take_left]
  · rw [total]
    exact List.drop_left

/-- What a format has to satisfy for an entry to be written under it. -/
structure SortedRunKeyFormat.Suits (head : SortedRunKeyFormat) (shape : PackableKey κ)
    (fields : List FieldFormat) (valuePrefix : List UInt8) (entry : κ × List UInt8) : Prop where
  fits : List.Forall₂ FieldFormat.Fits fields (shape.fieldValues entry.1)
  starts : entry.2.take valuePrefix.length = valuePrefix
  short : entry.2.length < 2 ^ 64

/-- The length of a value's tail is read back, and the tail is left. -/
theorem read_tail_length_back (head : SortedRunKeyFormat) (valueSize : Nat)
    (kind : knownKind head.valueSizeKind = true) (value : List UInt8)
    (short : value.length < 2 ^ 64)
    (size : head.valueSizeKind = ValueSizeKind.fixed.toU8 → value.length = valueSize)
    (rest : List UInt8) :
    readTailLength head valueSize
        ((if head.valueSizeKind = ValueSizeKind.varint.toU8 then
          BitStream.varint (value.drop head.commonValuePrefix.toNat).length else []) ++
          (value.drop head.commonValuePrefix.toNat ++ rest)) =
      .ok ((value.drop head.commonValuePrefix.toNat).length,
        value.drop head.commonValuePrefix.toNat ++ rest) := by
  unfold readTailLength
  by_cases fixed : head.valueSizeKind = ValueSizeKind.fixed.toU8
  · rw [if_pos fixed, if_neg (by rw [fixed]; decide), List.nil_append, List.length_drop,
      size fixed]
  · have varint : head.valueSizeKind = ValueSizeKind.varint.toU8 := by
      simp only [knownKind, Bool.or_eq_true, decide_eq_true_eq] at kind
      exact kind.resolve_left fixed
    have small : (value.drop head.commonValuePrefix.toNat).length * 2 ^ 0 < 2 ^ 64 := by
      rw [List.length_drop]
      omega
    rw [if_neg fixed, if_pos varint, BitStream.read_varint _ _ 0 small (by omega), Nat.pow_zero,
      Nat.mul_one]

section

variable (shape : PackableKey κ) (lawful : shape.Lawful) (head : SortedRunKeyFormat)
  (fields : List FieldFormat) (valuePrefix : List UInt8) (valueSize : Nat)
  (header : head.keyHeaderBytes.toNat = shape.keyHeaderBytes)
  (length : valuePrefix.length = head.commonValuePrefix.toNat)
  (kind : knownKind head.valueSizeKind = true)

include lawful header length kind

/-- An entry is read back, and what follows it is left. -/
theorem entry_read_back (entry : κ × List UInt8)
    (suits : head.Suits shape fields valuePrefix entry)
    (size : head.valueSizeKind = ValueSizeKind.fixed.toU8 → entry.2.length = valueSize) :
    ∃ bytes, encodeEntry shape head fields entry = .ok bytes ∧
      (head.valueSizeKind = ValueSizeKind.fixed.toU8 →
        bytes.length = bytesPerKey head fields + (valueSize - head.commonValuePrefix.toNat)) ∧
      ∀ rest, decodeEntry shape head fields valuePrefix valueSize (bytes ++ rest) =
        .ok (entry, rest) := by
  obtain ⟨bits, written, width, decoded⟩ := key_bits_ok fields _ suits.fits
  have packed : (BitStream.toBytes bits).length = (dataBitsPerKey fields + 7) / 8 := by
    rw [BitStream.length_to_bytes, width]
  have headerLength := length_le_bytes head.keyHeaderBytes.toNat (shape.keyHeader entry.1).toNat
  have body : (leBytes head.keyHeaderBytes.toNat (shape.keyHeader entry.1).toNat ++
      BitStream.toBytes bits).length = bytesPerKey head fields := by
    rw [List.length_append, headerLength, packed, bytesPerKey]
  have value : valuePrefix ++ entry.2.drop head.commonValuePrefix.toNat = entry.2 := by
    have whole := List.take_append_drop head.commonValuePrefix.toNat entry.2
    rw [← length] at whole ⊢
    rwa [suits.starts] at whole
  have number : UInt32.ofNat (leValue (leBytes head.keyHeaderBytes.toNat
      (shape.keyHeader entry.1).toNat)) = shape.keyHeader entry.1 := by
    rw [le_value_of_lt (by rw [header]; exact lawful.header_fits entry.1), UInt32.ofNat_toNat]
  let tail := entry.2.drop head.commonValuePrefix.toNat
  let size_ :=
    if head.valueSizeKind = ValueSizeKind.varint.toU8 then BitStream.varint tail.length else []
  refine ⟨leBytes head.keyHeaderBytes.toNat (shape.keyHeader entry.1).toNat ++
    BitStream.toBytes bits ++ size_ ++ tail, ?_, ?_, ?_⟩
  · rw [encodeEntry, written]
    rfl
  · intro fixed
    have none : size_ = [] := if_neg (by rw [fixed]; decide)
    rw [none, List.append_nil, List.length_append, body, List.length_drop, size fixed]
  · intro rest
    have tailLength : readTailLength head valueSize (size_ ++ (tail ++ rest)) =
        .ok (tail.length, tail ++ rest) :=
      read_tail_length_back head valueSize kind entry.2 suits.short size rest
    have order : leBytes head.keyHeaderBytes.toNat (shape.keyHeader entry.1).toNat ++
        BitStream.toBytes bits ++ size_ ++ tail ++ rest =
          (leBytes head.keyHeaderBytes.toNat (shape.keyHeader entry.1).toNat ++
            BitStream.toBytes bits) ++ (size_ ++ (tail ++ rest)) := by
      simp only [List.append_assoc]
    have enough : ¬ (leBytes head.keyHeaderBytes.toNat (shape.keyHeader entry.1).toNat ++
        BitStream.toBytes bits ++ (size_ ++ (tail ++ rest))).length < bytesPerKey head fields := by
      rw [List.length_append, body]
      omega
    have headerRead : (leBytes head.keyHeaderBytes.toNat (shape.keyHeader entry.1).toNat ++
        BitStream.toBytes bits ++ (size_ ++ (tail ++ rest))).take head.keyHeaderBytes.toNat =
          leBytes head.keyHeaderBytes.toNat (shape.keyHeader entry.1).toNat := by
      rw [List.append_assoc]
      exact List.take_left' headerLength
    have packedRead : ((leBytes head.keyHeaderBytes.toNat (shape.keyHeader entry.1).toNat ++
        BitStream.toBytes bits ++ (size_ ++ (tail ++ rest))).drop head.keyHeaderBytes.toNat).take
          (bytesPerKey head fields - head.keyHeaderBytes.toNat) = BitStream.toBytes bits := by
      rw [List.append_assoc, List.drop_left' headerLength]
      apply List.take_left'
      rw [packed, bytesPerKey]
      omega
    have values := decoded [] []
    rw [List.nil_append, List.append_nil, List.length_nil] at values
    have fields_ : ¬ (tail ++ rest).length < tail.length := by
      rw [List.length_append]
      omega
    rw [order, decodeEntry]
    simp only [headerRead, packedRead, number]
    rw [if_neg enough, List.drop_left' body, values, tailLength]
    simp only [bind, Except.bind]
    rw [if_neg fields_, lawful.inverse, List.take_left, List.drop_left, value]

/-- The entries are read back one by one. -/
theorem entries_read_back (entries : List (κ × List UInt8))
    (suits : ∀ entry ∈ entries, head.Suits shape fields valuePrefix entry)
    (size : head.valueSizeKind = ValueSizeKind.fixed.toU8 →
      ∀ entry ∈ entries, entry.2.length = valueSize) :
    ∃ bytes, encodeEntries shape head fields entries = .ok bytes ∧
      (head.valueSizeKind = ValueSizeKind.fixed.toU8 →
        bytes.length = entries.length *
          (bytesPerKey head fields + (valueSize - head.commonValuePrefix.toNat))) ∧
      decodeEntries shape head fields valuePrefix valueSize entries.length bytes = .ok entries := by
  induction entries with
  | nil => exact ⟨[], rfl, fun _ => (Nat.zero_mul _).symm, rfl⟩
  | cons entry entries ih =>
      obtain ⟨bytes, written, width, decoded⟩ := entry_read_back shape lawful head fields
        valuePrefix valueSize header length kind entry (suits entry List.mem_cons_self)
        fun fixed => size fixed entry List.mem_cons_self
      obtain ⟨later, more, total, all⟩ := ih
        (fun other member => suits other (List.mem_cons_of_mem entry member))
        fun fixed other member => size fixed other (List.mem_cons_of_mem entry member)
      refine ⟨bytes ++ later, ?_, ?_, ?_⟩
      · rw [encodeEntries, written, more]
        rfl
      · intro fixed
        rw [List.length_append, width fixed, total fixed, List.length_cons, Nat.succ_mul,
          Nat.add_comm]
      · rw [List.length_cons, decodeEntries, decoded]
        simp only [bind, Except.bind, all]

end

private theorem select_kind_uniform (values : List (List UInt8)) (forceVarint : Bool)
    (fixed : (selectKind values forceVarint).toU8 = ValueSizeKind.fixed.toU8) :
    uniformLengths values = true := by
  unfold selectKind at fixed
  split at fixed
  · cases fixed
  · cases values with
    | nil => rfl
    | cons first rest =>
        cases rest with
        | nil => rfl
        | cons second rest =>
            dsimp only at fixed
            split at fixed
            · next same => exact same
            · cases fixed

theorem uniform_lengths_eq (entries : List (κ × List UInt8))
    (uniform : uniformLengths (entries.map Prod.snd) = true) :
    ∀ entry ∈ entries, entry.2.length = ((entries.map Prod.snd).headD []).length := by
  intro entry member
  cases entries with
  | nil => exact absurd member List.not_mem_nil
  | cons first rest =>
      cases List.mem_cons.mp member with
      | inl here => rw [here, List.map_cons, List.headD_cons]
      | inr later =>
          have equal := List.all_eq_true.mp uniform entry.2 (List.mem_map_of_mem later)
          exact eq_of_beq equal

/-- When a run is written under a format, and what is written. -/
theorem encode_packed_run_ok (shape : PackableKey κ) (entries : List (κ × List UInt8))
    (head : SortedRunKeyFormat) (fields : List FieldFormat) (valuePrefix payload : List UInt8) :
    encodePackedRun shape entries head fields valuePrefix = .ok payload ↔
      fields.length = shape.nrFields ∧
        valuePrefix.length = head.commonValuePrefix.toNat ∧
        knownKind head.valueSizeKind = true ∧
        (head.valueSizeKind = ValueSizeKind.fixed.toU8 →
          uniformLengths (entries.map Prod.snd) = true) ∧
        checkPrefix valuePrefix (entries.map Prod.snd) = .ok () ∧
        ∃ body, encodeEntries shape head fields entries = .ok body ∧
          payload = head.serialise fields valuePrefix ++ body := by
  unfold encodePackedRun
  by_cases count : fields.length = shape.nrFields
  · by_cases length : valuePrefix.length = head.commonValuePrefix.toNat
    · by_cases kind : knownKind head.valueSizeKind = true
      · rw [if_neg (by simp [count]), if_neg (by simp [length]), if_neg (by simp [kind])]
        cases entries with
        | nil =>
            rw [if_pos (by rfl)]
            constructor
            · intro same
              cases same
              exact ⟨count, length, kind, fun _ => rfl, rfl, [], rfl, (List.append_nil _).symm⟩
            · rintro ⟨_, _, _, _, _, body, written, rfl⟩
              cases written
              rw [List.append_nil]
        | cons entry rest =>
            rw [if_neg (by simp)]
            by_cases mixed : head.valueSizeKind = ValueSizeKind.fixed.toU8 ∧
                (!uniformLengths ((entry :: rest).map Prod.snd)) = true
            · rw [if_pos mixed]
              constructor
              · intro same
                cases same
              · rintro ⟨_, _, _, uniform, _⟩
                rw [uniform mixed.1] at mixed
                exact absurd mixed.2 (by simp)
            · rw [if_neg mixed]
              have uniform : head.valueSizeKind = ValueSizeKind.fixed.toU8 →
                  uniformLengths ((entry :: rest).map Prod.snd) = true := by
                intro fixed
                cases same : uniformLengths ((entry :: rest).map Prod.snd) with
                | true => rfl
                | false => exact absurd ⟨fixed, by rw [same]; rfl⟩ mixed
              cases checked : checkPrefix valuePrefix ((entry :: rest).map Prod.snd) with
              | error err => simp [bind, Except.bind]
              | ok _ =>
                  cases written : encodeEntries shape head fields (entry :: rest) with
                  | error err => simp [bind, Except.bind]
                  | ok body =>
                      simp only [bind, Except.bind, Except.ok.injEq]
                      constructor
                      · intro same
                        exact ⟨count, length, kind, uniform, trivial, body, rfl, same.symm⟩
                      · rintro ⟨_, _, _, _, _, found, same, payload_⟩
                        rw [payload_, same]
      · rw [if_neg (by simp [count]), if_neg (by simp [length]), if_pos (by simp [kind])]
        simp [kind]
    · rw [if_neg (by simp [count]), if_pos length]
      simp [length]
  · rw [if_pos count]
    simp [count]

/-- What a chosen format is made of. -/
theorem select_format_ok (shape : PackableKey κ) (entries : List (κ × List UInt8))
    (forceVarint : Bool) (head : SortedRunKeyFormat) (fields : List FieldFormat)
    (valuePrefix : List UInt8)
    (selected : selectFormatWithHint shape entries forceVarint = .ok (head, fields, valuePrefix)) :
    fields = selectFields shape (entries.map Prod.fst) ∧
      shape.fieldHints.length = shape.nrFields ∧
      head.keyHeaderBytes.toNat = shape.keyHeaderBytes ∧
      head.nrFields.toNat = shape.nrFields := by
  unfold selectFormatWithHint at selected
  split at selected
  · cases selected
  next few =>
  split at selected
  · cases selected
  next short =>
  split at selected
  · cases selected
  next hints =>
  cases selected
  refine ⟨rfl, Decidable.not_not.mp hints, ?_, ?_⟩
  · rw [UInt8.toNat_ofNat']
    exact Nat.mod_eq_of_lt (by omega)
  · rw [UInt8.toNat_ofNat']
    exact Nat.mod_eq_of_lt (by omega)

/-- What is written under a format is read back. -/
theorem encoded_run_read_back (shape : PackableKey κ) (lawful : shape.Lawful)
    (head : SortedRunKeyFormat) (fields : List FieldFormat) (valuePrefix : List UInt8)
    (valueSize : Nat) (header : head.keyHeaderBytes.toNat = shape.keyHeaderBytes)
    (number : head.nrFields.toNat = shape.nrFields) (entries : List (κ × List UInt8))
    (suits : ∀ entry ∈ entries, head.Suits shape fields valuePrefix entry)
    (size : head.valueSizeKind = ValueSizeKind.fixed.toU8 →
      head.commonValuePrefix.toNat ≤ valueSize ∧ ∀ entry ∈ entries, entry.2.length = valueSize)
    (payload : List UInt8)
    (encoded : encodePackedRun shape entries head fields valuePrefix = .ok payload) :
    decodePackedRun shape payload valueSize entries.length = .ok (entries, head, fields) := by
  obtain ⟨count, length, kind, _, _, body, written, rfl⟩ :=
    (encode_packed_run_ok shape entries head fields valuePrefix payload).mp encoded
  obtain ⟨again, rewritten, total, decoded⟩ := entries_read_back shape lawful head fields
    valuePrefix valueSize header length kind entries suits fun fixed => (size fixed).2
  rw [written] at rewritten
  cases rewritten
  have parsed := parse_serialise head fields valuePrefix body (count.trans number.symm) length
  have prefix_ : ¬ (head.valueSizeKind = ValueSizeKind.fixed.toU8 ∧
      valueSize < head.commonValuePrefix.toNat) := by
    intro small
    exact absurd (size small.1).1 (Nat.not_le.mpr small.2)
  have enough : ¬ (head.valueSizeKind = ValueSizeKind.fixed.toU8 ∧
      body.length < entries.length *
        (bytesPerKey head fields + (valueSize - head.commonValuePrefix.toNat))) := by
    intro small
    rw [total small.1] at small
    exact Nat.lt_irrefl _ small.2
  rw [decodePackedRun, parsed.1]
  dsimp only
  rw [if_neg (by simp [number]), if_neg prefix_, parsed.2, if_neg enough, if_neg (by simp [kind]),
    decoded]
  rfl

/-- A run written under the format chosen for it is read back. -/
theorem packed_run_read_back (shape : PackableKey κ) (lawful : shape.Lawful)
    (entries : List (κ × List UInt8)) (forceVarint : Bool)
    (short : ∀ entry ∈ entries, entry.2.length < 2 ^ 64) :
    ∃ head fields valuePrefix payload,
      selectFormatWithHint shape entries forceVarint = .ok (head, fields, valuePrefix) ∧
      encodePackedRun shape entries head fields valuePrefix = .ok payload ∧
      ∀ valueSize, (head.valueSizeKind = ValueSizeKind.fixed.toU8 →
          ∀ entry ∈ entries, entry.2.length = valueSize) →
        decodePackedRun shape payload valueSize entries.length = .ok (entries, head, fields) := by
  let fields := selectFields shape (entries.map Prod.fst)
  let valuePrefix := commonPrefix (entries.map Prod.snd)
  let head : SortedRunKeyFormat :=
    { nrFields := UInt8.ofNat shape.nrFields
      keyHeaderBytes := UInt8.ofNat shape.keyHeaderBytes
      commonValuePrefix := UInt8.ofNat valuePrefix.length
      valueSizeKind := (selectKind (entries.map Prod.snd) forceVarint).toU8
      sumBitWidth := UInt32.ofNat (shape.keyHeaderBytes * 8 + dataBitsPerKey fields) }
  have selected : selectFormatWithHint shape entries forceVarint =
      .ok (head, fields, valuePrefix) := by
    have first := lawful.some_field
    have second := lawful.few_fields
    have third := lawful.short_header
    rw [selectFormatWithHint, if_neg (by omega), if_neg (by omega),
      if_neg (by simp [lawful.length_hints])]
  have number : fields.length = head.nrFields.toNat := by
    have few := lawful.few_fields
    rw [length_select_fields shape lawful, UInt8.toNat_ofNat']
    exact (Nat.mod_eq_of_lt (by omega)).symm
  have header : head.keyHeaderBytes.toNat = shape.keyHeaderBytes := by
    have few := lawful.short_header
    rw [UInt8.toNat_ofNat']
    exact Nat.mod_eq_of_lt (by omega)
  have length : valuePrefix.length = head.commonValuePrefix.toNat := by
    have few : valuePrefix.length ≤ 255 := length_common_prefix (entries.map Prod.snd)
    rw [UInt8.toNat_ofNat']
    exact (Nat.mod_eq_of_lt (by omega)).symm
  have kind : knownKind head.valueSizeKind = true := by
    have either : head.valueSizeKind = (selectKind (entries.map Prod.snd) forceVarint).toU8 := rfl
    rw [either]
    cases selectKind (entries.map Prod.snd) forceVarint <;> rfl
  have suits : ∀ entry ∈ entries, head.Suits shape fields valuePrefix entry := by
    intro entry member
    constructor
    · exact select_fields_fit shape lawful _ entry.1 (List.mem_map_of_mem member)
    · exact common_prefix_of_all _ entry.2 (List.mem_map_of_mem member)
    · exact short entry member
  have checked : checkPrefix valuePrefix (entries.map Prod.snd) = .ok () :=
    check_prefix_ok valuePrefix _ (common_prefix_of_all _)
  have encoded : ∀ body, encodeEntries shape head fields entries = .ok body →
      encodePackedRun shape entries head fields valuePrefix =
        .ok (head.serialise fields valuePrefix ++ body) := by
    intro body written
    rw [encode_packed_run_ok]
    exact ⟨length_select_fields shape lawful _, length, kind, select_kind_uniform _ forceVarint,
      checked, body, written, rfl⟩
  have same : head.valueSizeKind = ValueSizeKind.fixed.toU8 → ∀ entry ∈ entries,
      entry.2.length = ((entries.map Prod.snd).headD []).length := fun fixed =>
    uniform_lengths_eq entries (select_kind_uniform _ forceVarint fixed)
  obtain ⟨body, written, _, _⟩ := entries_read_back shape lawful head fields valuePrefix
    ((entries.map Prod.snd).headD []).length header length kind entries suits same
  refine ⟨head, fields, valuePrefix, head.serialise fields valuePrefix ++ body, selected,
    encoded body written, ?_⟩
  intro valueSize sizes
  have room : head.valueSizeKind = ValueSizeKind.fixed.toU8 →
      head.commonValuePrefix.toNat ≤ valueSize := by
    intro fixed
    cases entries with
    | nil => exact Nat.zero_le _
    | cons first rest =>
        have starts := congrArg List.length (suits first List.mem_cons_self).starts
        rw [List.length_take, sizes fixed first List.mem_cons_self] at starts
        omega
  exact encoded_run_read_back shape lawful head fields valuePrefix valueSize header
    (number.symm.trans (length_select_fields shape lawful _)) entries suits
    (fun fixed => ⟨room fixed, sizes fixed⟩) _ (encoded body written)

/-- Any run of fewer than 2^32 entries is given a format, written and read back. The bound on the
values is that of a length in memory. -/
theorem packed_run_round_trip (shape : PackableKey κ) (lawful : shape.Lawful)
    (entries : List (κ × List UInt8)) (few : entries.length < 2 ^ 32) (forceVarint : Bool)
    (short : ∀ entry ∈ entries, entry.2.length < 2 ^ 64) :
    ∃ head fields valuePrefix payload,
      selectFormatWithHint shape entries forceVarint = .ok (head, fields, valuePrefix) ∧
      encodePackedRun shape entries head fields valuePrefix = .ok payload ∧
      ∀ valueSize, (head.valueSizeKind = ValueSizeKind.fixed.toU8 →
          ∀ entry ∈ entries, entry.2.length = valueSize) →
        decodePackedRun shape payload valueSize (UInt32.ofNat entries.length).toNat =
          .ok (entries, head, fields) := by
  have count : (UInt32.ofNat entries.length).toNat = entries.length := by
    rw [UInt32.toNat_ofNat']
    exact Nat.mod_eq_of_lt few
  rw [count]
  exact packed_run_read_back shape lawful entries forceVarint short

/-- Keys in no order, one of them twice, and values of different lengths. -/
theorem mixed_run_round_trip :
    ([((7 : UInt64), [1, 2]), (3, [1, 5, 6]), (7, [])] : List (UInt64 × List UInt8)).length <
        2 ^ 32 ∧
      ∃ head fields valuePrefix payload,
        selectFormatWithHint PackableKey.u64 [(7, [1, 2]), (3, [1, 5, 6]), (7, [])] false =
          .ok (head, fields, valuePrefix) ∧
        encodePackedRun PackableKey.u64 [(7, [1, 2]), (3, [1, 5, 6]), (7, [])] head fields
          valuePrefix = .ok payload ∧
        ∀ valueSize, (head.valueSizeKind = ValueSizeKind.fixed.toU8 →
            ∀ entry ∈ ([(7, [1, 2]), (3, [1, 5, 6]), (7, [])] : List (UInt64 × List UInt8)),
              entry.2.length = valueSize) →
          decodePackedRun PackableKey.u64 payload valueSize (UInt32.ofNat 3).toNat =
            .ok ([(7, [1, 2]), (3, [1, 5, 6]), (7, [])], head, fields) :=
  ⟨by decide, packed_run_round_trip PackableKey.u64 PackableKey.u64_lawful _ (by decide) false
    (by decide)⟩

private theorem constant_fields (fields : List FieldFormat) (values : List UInt64)
    (fits : List.Forall₂ FieldFormat.Fits fields values) (none : dataBitsPerKey fields = 0) :
    values = fields.map FieldFormat.base := by
  induction fits with
  | nil => rfl
  | @cons field value fields values fit _ ih =>
      rw [dataBitsPerKey, List.map_cons, List.sum_cons] at none
      have constant : field.bitWidth = 0 := by
        apply UInt8.toNat_inj.mp
        show field.bitWidth.toNat = 0
        omega
      unfold FieldFormat.Fits at fit
      rw [if_pos constant] at fit
      rw [List.map_cons, fit, ih (by rw [dataBitsPerKey]; omega)]

private theorem encode_entries_count (shape : PackableKey κ) (head : SortedRunKeyFormat)
    (fields : List FieldFormat) (entries : List (κ × List UInt8))
    (wide : 0 < bytesPerKey head fields)
    (fits : ∀ entry ∈ entries, List.Forall₂ FieldFormat.Fits fields (shape.fieldValues entry.1)) :
    ∀ bytes, encodeEntries shape head fields entries = .ok bytes →
      entries.length ≤ bytes.length := by
  induction entries with
  | nil =>
      intro bytes _
      exact Nat.zero_le _
  | cons entry rest ih =>
      intro bytes ok
      obtain ⟨bits, written, width, -⟩ := key_bits_ok fields _ (fits entry List.mem_cons_self)
      cases later : encodeEntries shape head fields rest with
      | error err =>
          simp only [encodeEntries, encodeEntry, written, later, bind, Except.bind] at ok
          cases ok
      | ok more =>
          simp only [encodeEntries, encodeEntry, written, later, bind, Except.bind] at ok
          cases ok
          have tail := ih (fun other member => fits other (List.mem_cons_of_mem entry member)) _ later
          rw [bytesPerKey] at wide
          simp only [List.length_append, List.length_cons, length_le_bytes,
            BitStream.length_to_bytes, width]
          omega

/-- A run of distinct keys has a byte for each entry but one. -/
theorem packed_run_count (shape : PackableKey κ) (lawful : shape.Lawful)
    (entries : List (κ × List UInt8)) (distinct : (entries.map Prod.fst).Nodup)
    (forceVarint : Bool) (head : SortedRunKeyFormat) (fields : List FieldFormat)
    (valuePrefix bytes : List UInt8)
    (selected : selectFormatWithHint shape entries forceVarint = .ok (head, fields, valuePrefix))
    (encoded : encodePackedRun shape entries head fields valuePrefix = .ok bytes) :
    entries.length ≤ bytes.length + 1 := by
  have first := lawful.some_field
  have second := lawful.few_fields
  have third := lawful.short_header
  rw [selectFormatWithHint, if_neg (by omega), if_neg (by omega),
    if_neg (by simp [lawful.length_hints])] at selected
  cases selected
  have fits : ∀ entry ∈ entries, List.Forall₂ FieldFormat.Fits
      (selectFields shape (entries.map Prod.fst)) (shape.fieldValues entry.1) := by
    intro entry member
    exact select_fields_fit shape lawful _ entry.1 (List.mem_map_of_mem member)
  obtain ⟨_, _, _, _, _, body, written, rfl⟩ :=
    (encode_packed_run_ok shape entries _ _ _ bytes).mp encoded
  by_cases wide : 0 < shape.keyHeaderBytes ∨
      0 < dataBitsPerKey (selectFields shape (entries.map Prod.fst))
  · have count := encode_entries_count shape _ _ entries (by
      rw [bytesPerKey, UInt8.toNat_ofNat', Nat.mod_eq_of_lt (by omega)]
      omega) fits body written
    rw [List.length_append]
    omega
  · have alike : ∀ key ∈ entries.map Prod.fst, ∀ other ∈ entries.map Prod.fst,
        key = other := by
      have same : ∀ key ∈ entries.map Prod.fst, shape.keyHeader key = 0 ∧
          shape.fieldValues key =
            (selectFields shape (entries.map Prod.fst)).map FieldFormat.base := by
        intro key member
        obtain ⟨entry, present, rfl⟩ := List.mem_map.mp member
        have header := lawful.header_fits entry.1
        have short : shape.keyHeaderBytes = 0 := by omega
        rw [short, Nat.pow_zero] at header
        constructor
        · apply UInt32.toNat_inj.mp
          show (shape.keyHeader entry.1).toNat = 0
          omega
        · exact constant_fields _ _ (fits entry present) (by omega)
      intro key member other present
      have left := lawful.inverse key
      have right := lawful.inverse other
      rw [(same key member).1, (same key member).2] at left
      rw [(same other present).1, (same other present).2, left] at right
      exact Except.ok.inj right
    have few : (entries.map Prod.fst).length ≤ 1 := by
      cases keys : entries.map Prod.fst with
      | nil => exact Nat.zero_le _
      | cons key rest =>
          cases rest with
          | nil => exact Nat.le_refl _
          | cons other more =>
              rw [keys] at alike distinct
              have equal := alike key List.mem_cons_self other (by simp)
              rw [equal] at distinct
              exact absurd List.mem_cons_self (List.nodup_cons.mp distinct).1
    rw [List.length_map] at few
    omega

end Mimisbrunnr.Storage
