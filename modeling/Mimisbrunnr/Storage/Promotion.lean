import Mimisbrunnr.Storage.PackRoundTrip

/-!
# Promotion of a packed format

A key that does not fit the format of a run asks for a wider one. The suggested
fields keep every key of the old ones and take the new key. The suggested head
always asks for values of one length, and the end of a field's old range is
computed in 64 bits.
-/

namespace Mimisbrunnr.Storage

set_option autoImplicit false

open Mimisbrunnr.Lib

inductive FormatFit where
  | fits
  | needsPromotion (head : SortedRunKeyFormat) (fields : List FieldFormat)
deriving DecidableEq, Repr

def checkedAdd (left right : UInt64) : Option UInt64 :=
  if left.toNat + right.toNat < 2 ^ 64 then some (left + right) else none

def checkedPower (width : UInt8) : Option UInt64 :=
  if width.toNat < 64 then some (UInt64.ofNat (2 ^ width.toNat)) else none

namespace FieldFormat

/-- The greatest distance from the base that the field can hold. -/
def curMax (field : FieldFormat) : Option UInt64 :=
  if field.bitWidth = 0 then some 0
  else if field.bitWidth = 64 then some (UInt64.ofNat (2 ^ 64 - 1))
  else (checkedPower field.bitWidth).map fun power => power - 1

/-- The end of the field's range. -/
def oldUpper (field : FieldFormat) : Option UInt64 :=
  if field.bitWidth = 0 then some field.base
  else if field.bitWidth = 64 then some (UInt64.ofNat (2 ^ 64 - 1))
  else do
    let power ← checkedPower field.bitWidth
    let beyond ← checkedAdd field.base power
    some (beyond - 1)

def reqWidth (rangeMax : UInt64) : UInt8 := if rangeMax = 0 then 0 else spanWidth rangeMax

/-- The wider field, if it differs. -/
def widened (field : FieldFormat) (newBase rangeMax : UInt64) : Option FieldFormat :=
  if field.bitWidth < reqWidth rangeMax ∨ newBase ≠ field.base then
    some { bitWidth := max (reqWidth rangeMax) field.bitWidth, flags := field.flags,
           base := newBase }
  else none

def promote (field : FieldFormat) (value : UInt64) : Option (Option FieldFormat) :=
  if value < field.base then
    field.oldUpper.map fun upper => field.widened value (upper - value)
  else
    field.curMax.map fun greatest =>
      if greatest < value - field.base then field.widened field.base (value - field.base) else none

end FieldFormat

/-- Whether any field needs a wider one, and the fields with the wider ones. -/
def promoteFields : List FieldFormat → List UInt64 → Option (Bool × List FieldFormat)
  | field :: fields, value :: values => do
      let promoted ← field.promote value
      let (needs, rest) ← promoteFields fields values
      some (promoted.isSome || needs, promoted.getD field :: rest)
  | fields, _ => some (false, fields)

/-- The head of the wider format, whatever the lengths of the values were. -/
def promotedHead {κ : Type} (shape : PackableKey κ) (head : SortedRunKeyFormat)
    (newFields : List FieldFormat) : SortedRunKeyFormat :=
  { nrFields := UInt8.ofNat shape.nrFields
    keyHeaderBytes := head.keyHeaderBytes
    commonValuePrefix := head.commonValuePrefix
    valueSizeKind := ValueSizeKind.fixed.toU8
    sumBitWidth := UInt32.ofNat (head.keyHeaderBytes.toNat * 8 + dataBitsPerKey newFields) }

def checkFit {κ : Type} (shape : PackableKey κ) (head : SortedRunKeyFormat)
    (fields : List FieldFormat) (key : κ) : Option (Except PackError FormatFit) :=
  if fields.length ≠ shape.nrFields then
    some (.error (.malformed "check_fit: format field count mismatch with PackableKey"))
  else if shape.keyHeaderBytes ≠ head.keyHeaderBytes.toNat then
    some (.error (.invalidKeyHeaderBytes head.keyHeaderBytes))
  else
    (promoteFields fields (shape.fieldValues key)).map fun (needs, newFields) =>
      if needs then .ok (.needsPromotion (promotedHead shape head newFields) newFields)
      else .ok .fits

namespace FieldFormat

/-- The end of the range of a field, above a value below its base, is not a number of 64 bits. -/
def Overruns (field : FieldFormat) (value : UInt64) : Prop :=
  value < field.base ∧ field.bitWidth ≠ 0 ∧ field.bitWidth ≠ 64 ∧
    2 ^ 64 ≤ field.base.toNat + 2 ^ field.bitWidth.toNat

instance (field : FieldFormat) (value : UInt64) : Decidable (field.Overruns value) :=
  inferInstanceAs (Decidable (_ ∧ _ ∧ _ ∧ _))

private theorem old_upper_some (field : FieldFormat) (narrow : field.bitWidth.toNat ≤ 64) :
    (∃ upper, field.oldUpper = some upper ∧
      (field.bitWidth ≠ 64 → upper.toNat + 1 = field.base.toNat + 2 ^ field.bitWidth.toNat) ∧
      (field.bitWidth ≠ 0 → field.bitWidth ≠ 64 →
        field.base.toNat + 2 ^ field.bitWidth.toNat < 2 ^ 64)) ∨
    (field.oldUpper = none ∧ field.bitWidth ≠ 0 ∧ field.bitWidth ≠ 64 ∧
      2 ^ 64 ≤ field.base.toNat + 2 ^ field.bitWidth.toNat) := by
  unfold oldUpper
  by_cases constant : field.bitWidth = 0
  · rw [if_pos constant]
    left
    refine ⟨field.base, rfl, ?_, ?_⟩
    · intro _
      rw [constant]
      rfl
    · intro other
      exact absurd constant other
  · rw [if_neg constant]
    by_cases wide : field.bitWidth = 64
    · rw [if_pos wide]
      left
      exact ⟨_, rfl, fun other => absurd wide other, fun _ other => absurd wide other⟩
    · have below : field.bitWidth.toNat < 64 := by
        have different : field.bitWidth.toNat ≠ 64 := fun same =>
          wide (UInt8.toNat_inj.mp same)
        omega
      have power : (UInt64.ofNat (2 ^ field.bitWidth.toNat)).toNat = 2 ^ field.bitWidth.toNat := by
        rw [UInt64.toNat_ofNat']
        exact Nat.mod_eq_of_lt (Nat.pow_lt_pow_right (by omega) below)
      rw [if_neg wide, checkedPower, if_pos below]
      simp only [bind, Option.bind, checkedAdd, power]
      by_cases fits : field.base.toNat + 2 ^ field.bitWidth.toNat < 2 ^ 64
      · rw [if_pos fits]
        left
        refine ⟨_, rfl, ?_, fun _ _ => fits⟩
        intro _
        have positive := Nat.two_pow_pos field.bitWidth.toNat
        rw [UInt64.toNat_sub_of_le _ _ (by
          rw [UInt64.le_iff_toNat_le, UInt64.toNat_add, power, Nat.mod_eq_of_lt fits]
          exact Nat.le_trans positive (Nat.le_add_left _ _)), UInt64.toNat_add, power,
          Nat.mod_eq_of_lt fits]
        have one : (1 : UInt64).toNat = 1 := rfl
        omega
      · rw [if_neg fits]
        right
        exact ⟨rfl, constant, wide, Nat.not_lt.mp fits⟩

private theorem cur_max_some (field : FieldFormat) (narrow : field.bitWidth.toNat ≤ 64) :
    ∃ greatest, field.curMax = some greatest ∧
      greatest.toNat + 1 = 2 ^ field.bitWidth.toNat := by
  unfold curMax
  by_cases constant : field.bitWidth = 0
  · rw [if_pos constant, constant]
    exact ⟨0, rfl, rfl⟩
  · rw [if_neg constant]
    by_cases wide : field.bitWidth = 64
    · rw [if_pos wide, wide]
      exact ⟨_, rfl, rfl⟩
    · have below : field.bitWidth.toNat < 64 := by
        have different : field.bitWidth.toNat ≠ 64 := fun same =>
          wide (UInt8.toNat_inj.mp same)
        omega
      have power : (UInt64.ofNat (2 ^ field.bitWidth.toNat)).toNat = 2 ^ field.bitWidth.toNat := by
        rw [UInt64.toNat_ofNat']
        exact Nat.mod_eq_of_lt (Nat.pow_lt_pow_right (by omega) below)
      have positive := Nat.two_pow_pos field.bitWidth.toNat
      have one : (1 : UInt64).toNat = 1 := rfl
      rw [if_neg wide, checkedPower, if_pos below]
      refine ⟨_, rfl, ?_⟩
      rw [UInt64.toNat_sub_of_le _ _ (by
        rw [UInt64.le_iff_toNat_le, power]
        exact positive), power]
      omega

theorem lt_req_width (rangeMax : UInt64) :
    rangeMax.toNat < 2 ^ (reqWidth rangeMax).toNat ∧ (reqWidth rangeMax).toNat ≤ 64 ∧
      (reqWidth rangeMax = 0 → rangeMax = 0) := by
  unfold reqWidth
  by_cases none : rangeMax = 0
  · rw [if_pos none, none]
    exact ⟨by decide, by decide, fun _ => rfl⟩
  · have different : rangeMax.toNat ≠ 0 := fun same => none (UInt64.toNat_inj.mp same)
    have bound := rangeMax.toNat_lt
    have narrow : rangeMax.toNat.log2 < 64 := by
      rw [Nat.log2_lt different]
      omega
    have width : (spanWidth rangeMax).toNat = rangeMax.toNat.log2 + 1 := by
      rw [spanWidth, UInt8.toNat_ofNat']
      exact Nat.mod_eq_of_lt (by omega)
    rw [if_neg none, width]
    refine ⟨Nat.lt_log2_self, by omega, ?_⟩
    intro zero
    rw [zero] at width
    exact absurd width (by simp)

/-- What a promotion of a field may be. -/
inductive Promoted (field : FieldFormat) (value : UInt64) : Option (Option FieldFormat) → Prop
  | overruns (overruns : field.Overruns value) : Promoted field value none
  | covered (covers : field.Covers value) : Promoted field value (some none)
  | widened (wider : FieldFormat) (fine : ¬ field.Overruns value)
      (outside : ¬ field.Covers value) (fits : wider.Fits value)
      (keeps : ∀ old, field.Fits old → wider.Fits old) : Promoted field value (some (some wider))

theorem fits_iff (field : FieldFormat) (value : UInt64) :
    field.Fits value ↔ (value - field.base).toNat < 2 ^ field.bitWidth.toNat := by
  unfold Fits
  by_cases constant : field.bitWidth = 0
  · rw [if_pos constant, constant]
    constructor
    · intro same
      rw [same, UInt64.sub_self]
      exact Nat.zero_lt_one
    · intro small
      have zero : (value - field.base).toNat = (0 : UInt64).toNat := Nat.lt_one_iff.mp small
      have whole := UInt64.sub_add_cancel value field.base
      rw [UInt64.toNat_inj.mp zero, UInt64.zero_add] at whole
      exact whole.symm
  · rw [if_neg constant]

private theorem covers_iff (field : FieldFormat) (value : UInt64) :
    field.Covers value ↔ field.base.toNat ≤ value.toNat ∧
      value.toNat < field.base.toNat + 2 ^ field.bitWidth.toNat := by
  unfold Covers
  rw [fits_iff, UInt64.le_iff_toNat_le]
  constructor
  · intro both
    have distance := UInt64.toNat_sub_of_le value field.base (UInt64.le_iff_toNat_le.mpr both.1)
    omega
  · intro both
    have distance := UInt64.toNat_sub_of_le value field.base (UInt64.le_iff_toNat_le.mpr both.1)
    omega

private theorem to_nat_max (left right : UInt8) :
    (max left right).toNat = max left.toNat right.toNat := by
  by_cases order : left ≤ right
  · rw [show max left right = right from if_pos order,
      Nat.max_eq_right (UInt8.le_iff_toNat_le.mp order)]
  · have other : ¬ left.toNat ≤ right.toNat := fun le => order (UInt8.le_iff_toNat_le.mpr le)
    rw [show max left right = left from if_neg order, Nat.max_eq_left (by omega)]

/-- A field with a lower base keeps what the old one held, up to the end of its range. -/
theorem lowered_keeps (field : FieldFormat) (value upper old : UInt64)
    (below : value.toNat < field.base.toNat)
    (ends : field.bitWidth ≠ 64 → upper.toNat + 1 = field.base.toNat + 2 ^ field.bitWidth.toNat)
    (fits : field.Fits old) :
    (old - value).toNat < 2 ^ max (reqWidth (upper - value)).toNat field.bitWidth.toNat := by
  by_cases wide : field.bitWidth = 64
  · have bound := (old - value).toNat_lt
    have power : 2 ^ 64 ≤ 2 ^ max (reqWidth (upper - value)).toNat field.bitWidth.toNat := by
      apply Nat.pow_le_pow_right (by omega)
      rw [wide]
      exact Nat.le_max_right _ _
    omega
  · have whole := ends wide
    have last := upper.toNat_lt
    have positive := Nat.two_pow_pos field.bitWidth.toNat
    rw [fits_iff] at fits
    have oldBound := old.toNat_lt
    -- the distance from the old base does not wrap
    have place : field.base.toNat ≤ old.toNat ∧ old.toNat ≤ upper.toNat := by
      rw [UInt64.toNat_sub] at fits
      omega
    have distance := UInt64.toNat_sub_of_le upper value (UInt64.le_iff_toNat_le.mpr (by omega))
    have held := (lt_req_width (upper - value)).1
    have power : 2 ^ (reqWidth (upper - value)).toNat ≤
        2 ^ max (reqWidth (upper - value)).toNat field.bitWidth.toNat :=
      Nat.pow_le_pow_right (by omega) (Nat.le_max_left _ _)
    rw [UInt64.toNat_sub_of_le old value (UInt64.le_iff_toNat_le.mpr (by omega))]
    omega

private theorem promoted_promote (field : FieldFormat) (value : UInt64)
    (narrow : field.bitWidth.toNat ≤ 64) : field.Promoted value (field.promote value) := by
  unfold promote
  by_cases below : value < field.base
  · have under := UInt64.lt_iff_toNat_lt.mp below
    have outside : ¬ field.Covers value := fun covers =>
      absurd (UInt64.le_iff_toNat_le.mp covers.1) (by omega)
    rw [if_pos below]
    cases old_upper_some field narrow with
    | inl found =>
        obtain ⟨upper, isUpper, ends, room⟩ := found
        have fine : ¬ field.Overruns value := fun overruns =>
          absurd (room overruns.2.1 overruns.2.2.1) (Nat.not_lt.mpr overruns.2.2.2)
        rw [isUpper, Option.map_some, widened,
          if_pos (Or.inr fun same => absurd (congrArg UInt64.toNat same) (by omega))]
        apply Promoted.widened _ fine outside
        · rw [fits_iff, UInt64.sub_self]
          exact Nat.two_pow_pos _
        · intro old fits
          rw [fits_iff, to_nat_max]
          exact lowered_keeps field value upper old under ends fits
    | inr none =>
        rw [none.1, Option.map_none]
        exact .overruns ⟨below, none.2⟩
  · have above : field.base.toNat ≤ value.toNat := by
      have order := UInt64.le_iff_toNat_le.mp (UInt64.not_lt.mp below)
      exact order
    have distance := UInt64.toNat_sub_of_le value field.base (UInt64.le_iff_toNat_le.mpr above)
    obtain ⟨greatest, isGreatest, ends⟩ := cur_max_some field narrow
    rw [if_neg below, isGreatest, Option.map_some]
    by_cases beyond : greatest < value - field.base
    · have past := UInt64.lt_iff_toNat_lt.mp beyond
      have outside : ¬ field.Covers value := by
        rw [covers_iff]
        omega
      have held := (lt_req_width (value - field.base)).1
      have wider : field.bitWidth < reqWidth (value - field.base) := by
        rw [UInt8.lt_iff_toNat_lt]
        apply (Nat.pow_lt_pow_iff_right (a := 2) (by omega)).mp
        omega
      rw [if_pos beyond, widened, if_pos (Or.inl wider)]
      apply Promoted.widened _ (fun overruns => below overruns.1) outside
      · rw [fits_iff, to_nat_max]
        exact Nat.lt_of_lt_of_le held (Nat.pow_le_pow_right (by omega) (Nat.le_max_left _ _))
      · intro old fits
        rw [fits_iff] at fits ⊢
        rw [to_nat_max]
        exact Nat.lt_of_lt_of_le fits (Nat.pow_le_pow_right (by omega) (Nat.le_max_right _ _))
    · have under := Nat.not_lt.mp (fun less => beyond (UInt64.lt_iff_toNat_lt.mpr less))
      rw [if_neg beyond]
      apply Promoted.covered
      rw [covers_iff]
      omega

end FieldFormat

def KeyOverruns (fields : List FieldFormat) (values : List UInt64) : Prop :=
  ∃ pair ∈ fields.zip values, FieldFormat.Overruns pair.1 pair.2

/-- What a promotion of all fields may be. -/
inductive PromotedFields (fields : List FieldFormat) (values : List UInt64) :
    Option (Bool × List FieldFormat) → Prop
  | overruns (overruns : KeyOverruns fields values) : PromotedFields fields values none
  | covered (fine : ¬ KeyOverruns fields values)
      (covers : List.Forall₂ FieldFormat.Covers fields values) :
      PromotedFields fields values (some (false, fields))
  | widened (wider : List FieldFormat) (fine : ¬ KeyOverruns fields values)
      (outside : ¬ List.Forall₂ FieldFormat.Covers fields values)
      (length : wider.length = fields.length)
      (fits : List.Forall₂ FieldFormat.Fits wider values)
      (keeps : ∀ old, List.Forall₂ FieldFormat.Fits fields old →
        List.Forall₂ FieldFormat.Fits wider old) :
      PromotedFields fields values (some (true, wider))

private theorem promoted_fields (fields : List FieldFormat) :
    ∀ values, fields.length = values.length → (∀ field ∈ fields, field.bitWidth.toNat ≤ 64) →
      PromotedFields fields values (promoteFields fields values) := by
  induction fields with
  | nil =>
      intro values same _
      have none : values = [] := List.eq_nil_of_length_eq_zero same.symm
      subst none
      exact .covered (fun ⟨_, member, _⟩ => absurd member List.not_mem_nil) .nil
  | cons field fields ih =>
      intro values same narrow
      cases values with
      | nil => cases same
      | cons value values =>
          have here := field.promoted_promote value (narrow field List.mem_cons_self)
          have later := ih values (Nat.succ.inj same)
            fun other member => narrow other (List.mem_cons_of_mem field member)
          have parts : KeyOverruns (field :: fields) (value :: values) ↔
              field.Overruns value ∨ KeyOverruns fields values := by
            simp only [KeyOverruns, List.zip_cons_cons, List.mem_cons, or_and_right, exists_or,
              exists_eq_left]
          simp only [promoteFields]
          generalize field.promote value = promoted at here
          generalize promoteFields fields values = rest at later
          cases here with
          | overruns overruns => exact .overruns (parts.mpr (Or.inl overruns))
          | covered covers =>
              have fine : ¬ field.Overruns value := fun overruns =>
                absurd covers.1 (UInt64.not_le.mpr overruns.1)
              cases later with
              | overruns overruns => exact .overruns (parts.mpr (Or.inr overruns))
              | covered others all =>
                  exact .covered (fun either => (parts.mp either).elim fine others)
                    (.cons covers all)
              | widened wider others outside length fits keeps =>
                  apply PromotedFields.widened
                  · exact fun either => (parts.mp either).elim fine others
                  · intro all
                    cases all with
                    | cons _ rest => exact outside rest
                  · exact congrArg Nat.succ length
                  · exact .cons covers.2 fits
                  · intro old held
                    cases held with
                    | cons first rest => exact .cons first (keeps _ rest)
          | widened widest fine outside fit keep =>
              cases later with
              | overruns overruns => exact .overruns (parts.mpr (Or.inr overruns))
              | covered others all =>
                  apply PromotedFields.widened
                  · exact fun either => (parts.mp either).elim fine others
                  · intro whole
                    cases whole with
                    | cons first _ => exact outside first
                  · rfl
                  · exact .cons fit (all.imp fun _ _ both => both.2)
                  · intro old held
                    cases held with
                    | cons first rest => exact .cons (keep _ first) rest
              | widened wider others outsides length fits keeps =>
                  apply PromotedFields.widened
                  · exact fun either => (parts.mp either).elim fine others
                  · intro whole
                    cases whole with
                    | cons first _ => exact outside first
                  · exact congrArg Nat.succ length
                  · exact .cons fit fits
                  · intro old held
                    cases held with
                    | cons first rest => exact .cons (keep _ first) (keeps _ rest)

variable {κ : Type}

private theorem select_fields_narrow (shape : PackableKey κ) (keys : List κ) :
    ∀ field ∈ selectFields shape keys, field.bitWidth.toNat ≤ 64 := by
  have format (hints : FieldHints) (least greatest : UInt64) :
      (fieldFormat hints least greatest).bitWidth.toNat ≤ 64 := by
    unfold fieldFormat spanWidth
    dsimp only
    split
    · exact Nat.zero_le _
    · have bound := (greatest - least).toNat_lt
      rw [UInt8.toNat_ofNat']
      apply Nat.le_trans (Nat.mod_le _ _)
      cases Nat.eq_zero_or_pos (greatest - least).toNat with
      | inl none => simp [none]
      | inr some_span =>
          have narrow : (greatest - least).toNat.log2 < 64 := by
            rw [Nat.log2_lt (by omega)]
            exact bound
          omega
  intro field member
  unfold selectFields at member
  split at member
  · obtain ⟨hints, _, rfl⟩ := List.mem_map.mp member
    exact Nat.zero_le _
  · obtain ⟨index, inside, rfl⟩ := List.mem_iff_getElem.mp member
    rw [List.getElem_zipWith]
    exact format _ _ _

private theorem check_prefix_starts (valuePrefix : List UInt8) (values : List (List UInt8))
    (checked : checkPrefix valuePrefix values = .ok ()) :
    ∀ value ∈ values, value.take valuePrefix.length = valuePrefix := by
  induction values with
  | nil =>
      intro value member
      exact absurd member List.not_mem_nil
  | cons first rest ih =>
      intro value member
      unfold checkPrefix at checked
      split at checked
      · cases checked
      split at checked
      · cases checked
      next same =>
        cases List.mem_cons.mp member with
        | inl here =>
            rw [here]
            exact Decidable.not_not.mp same
        | inr later => exact ih checked value later

theorem fits_of_key_bits (fields : List FieldFormat) :
    ∀ (values : List UInt64) (bits : List Bool), fields.length = values.length →
      keyBits fields values = .ok bits → List.Forall₂ FieldFormat.Fits fields values := by
  induction fields with
  | nil =>
      intro values bits same _
      have none : values = [] := List.eq_nil_of_length_eq_zero same.symm
      subst none
      exact .nil
  | cons field fields ih =>
      intro values bits same written
      cases values with
      | nil => cases same
      | cons value values =>
          have fit : field.Fits value := by
            unfold FieldFormat.Fits
            simp only [keyBits, fieldBits] at written
            split at written
            · next constant =>
                rw [if_pos constant]
                split at written
                · cases written
                next equal => exact Decidable.not_not.mp equal
            · next varying =>
                rw [if_neg varying]
                split at written
                · cases written
                next small => exact Nat.not_le.mp small
          cases here : fieldBits field value with
          | error err =>
              simp only [keyBits, here, bind, Except.bind] at written
              cases written
          | ok first =>
              cases later : keyBits fields values with
              | error err =>
                  simp only [keyBits, here, later, bind, Except.bind] at written
                  cases written
              | ok rest => exact .cons fit (ih values rest (Nat.succ.inj same) later)

private theorem encoded_entries_fit (shape : PackableKey κ)
    (sized : ∀ key, (shape.fieldValues key).length = shape.nrFields) (head : SortedRunKeyFormat)
    (fields : List FieldFormat) (count : fields.length = shape.nrFields)
    (entries : List (κ × List UInt8)) :
    ∀ bytes, encodeEntries shape head fields entries = .ok bytes →
      ∀ entry ∈ entries, List.Forall₂ FieldFormat.Fits fields (shape.fieldValues entry.1) := by
  induction entries with
  | nil =>
      intro bytes _ entry member
      exact absurd member List.not_mem_nil
  | cons first rest ih =>
      intro bytes written entry member
      cases here : keyBits fields (shape.fieldValues first.1) with
      | error err =>
          simp only [encodeEntries, encodeEntry, here, bind, Except.bind] at written
          cases written
      | ok bits =>
          cases later : encodeEntries shape head fields rest with
          | error err =>
              simp only [encodeEntries, encodeEntry, here, later, bind, Except.bind] at written
              cases written
          | ok more =>
              cases List.mem_cons.mp member with
              | inl same =>
                  rw [same]
                  exact fits_of_key_bits fields _ bits (count.trans (sized first.1).symm) here
              | inr other => exact ih more later entry other

/-- A run is written under a format that suits its entries. -/
theorem encode_of_suits (shape : PackableKey κ) (lawful : shape.Lawful) (head : SortedRunKeyFormat)
    (fields : List FieldFormat) (valuePrefix : List UInt8)
    (header : head.keyHeaderBytes.toNat = shape.keyHeaderBytes)
    (count : fields.length = shape.nrFields)
    (length : valuePrefix.length = head.commonValuePrefix.toNat)
    (kind : knownKind head.valueSizeKind = true) (entries : List (κ × List UInt8))
    (suits : ∀ entry ∈ entries, head.Suits shape fields valuePrefix entry)
    (uniform : head.valueSizeKind = ValueSizeKind.fixed.toU8 →
      uniformLengths (entries.map Prod.snd) = true) :
    ∃ payload, encodePackedRun shape entries head fields valuePrefix = .ok payload := by
  have size : head.valueSizeKind = ValueSizeKind.fixed.toU8 →
      ∀ entry ∈ entries, entry.2.length = ((entries.map Prod.snd).headD []).length := by
    intro fixed
    exact uniform_lengths_eq entries (uniform fixed)
  obtain ⟨body, written, _, _⟩ := entries_read_back shape lawful head fields valuePrefix _ header
    length kind entries suits size
  have starts : ∀ value ∈ entries.map Prod.snd, value.take valuePrefix.length = valuePrefix := by
    intro value member
    obtain ⟨entry, present, rfl⟩ := List.mem_map.mp member
    exact (suits entry present).starts
  refine ⟨head.serialise fields valuePrefix ++ body, ?_⟩
  rw [encode_packed_run_ok]
  exact ⟨count, length, kind, uniform, check_prefix_ok valuePrefix _ starts, body, written, rfl⟩

/-- What a promotion has to keep: nothing overflows, a key that is said to fit is written, and
every run written under the old format takes the key and a value with the prefix under the
new one, and is read back. -/
structure PromotionSound (shape : PackableKey κ) (head : SortedRunKeyFormat)
    (fields : List FieldFormat) (valuePrefix : List UInt8) (key : κ)
    (before after : List (κ × List UInt8)) (value : List UInt8) : Prop where
  no_overflow : checkFit shape head fields key ≠ none
  fits : checkFit shape head fields key = some (.ok .fits) →
    ∃ payload, encodePackedRun shape [(key, value)] head fields valuePrefix = .ok payload
  promoted : ∀ newHead newFields,
    checkFit shape head fields key = some (.ok (.needsPromotion newHead newFields)) →
    ∃ payload, encodePackedRun shape (before ++ (key, value) :: after) newHead newFields
        valuePrefix = .ok payload ∧
      ∀ valueSize, (newHead.valueSizeKind = ValueSizeKind.fixed.toU8 →
          ∀ entry ∈ before ++ (key, value) :: after, entry.2.length = valueSize) →
        decodePackedRun shape payload valueSize (before ++ (key, value) :: after).length =
          .ok (before ++ (key, value) :: after, newHead, newFields)

/-- A run with values of one length is written under a promoted format, and read back. -/
theorem promoted_run_read_back (shape : PackableKey κ) (lawful : shape.Lawful)
    (head : SortedRunKeyFormat) (wider : List FieldFormat) (valuePrefix : List UInt8)
    (header : head.keyHeaderBytes.toNat = shape.keyHeaderBytes)
    (count : wider.length = shape.nrFields)
    (length : valuePrefix.length = head.commonValuePrefix.toNat) (entries : List (κ × List UInt8))
    (suits : ∀ entry ∈ entries, (promotedHead shape head wider).Suits shape wider valuePrefix entry)
    (uniform : uniformLengths (entries.map Prod.snd) = true) (some_entry : ∃ entry, entry ∈ entries) :
    ∃ payload, encodePackedRun shape entries (promotedHead shape head wider) wider valuePrefix =
        .ok payload ∧
      ∀ valueSize, ((promotedHead shape head wider).valueSizeKind = ValueSizeKind.fixed.toU8 →
          ∀ entry ∈ entries, entry.2.length = valueSize) →
        decodePackedRun shape payload valueSize entries.length =
          .ok (entries, promotedHead shape head wider, wider) := by
  have number : (promotedHead shape head wider).nrFields.toNat = shape.nrFields := by
    have few := lawful.few_fields
    rw [promotedHead, UInt8.toNat_ofNat']
    exact Nat.mod_eq_of_lt (by omega)
  obtain ⟨payload, encoded⟩ := encode_of_suits shape lawful (promotedHead shape head wider)
    wider valuePrefix header count length rfl entries suits fun _ => uniform
  refine ⟨payload, encoded, ?_⟩
  intro valueSize size
  refine encoded_run_read_back shape lawful (promotedHead shape head wider) wider
    valuePrefix valueSize header number entries suits ?_ payload encoded
  intro fixed
  refine ⟨?_, size fixed⟩
  obtain ⟨entry, member⟩ := some_entry
  have long := congrArg List.length (suits entry member).starts
  rw [List.length_take, size fixed entry member] at long
  have same : (promotedHead shape head wider).commonValuePrefix = head.commonValuePrefix := rfl
  rw [same]
  omega

/-- A promotion is sound if no range ends beyond 64 bits and, where the key is outside the format,
all values have one length: the promoted head is always one of fixed lengths. -/
theorem promotion_sound_iff (shape : PackableKey κ) (lawful : shape.Lawful)
    (run : List (κ × List UInt8)) (forceVarint : Bool) (head : SortedRunKeyFormat)
    (fields : List FieldFormat) (valuePrefix : List UInt8)
    (selected : selectFormatWithHint shape run forceVarint = .ok (head, fields, valuePrefix))
    (key : κ) (before after : List (κ × List UInt8)) (value old : List UInt8)
    (encodable : encodePackedRun shape (before ++ after) head fields valuePrefix = .ok old)
    (starts : value.take valuePrefix.length = valuePrefix)
    (short : ∀ entry ∈ before ++ (key, value) :: after, entry.2.length < 2 ^ 64) :
    PromotionSound shape head fields valuePrefix key before after value ↔
      ¬ KeyOverruns fields (shape.fieldValues key) ∧
        (List.Forall₂ FieldFormat.Covers fields (shape.fieldValues key) ∨
          uniformLengths ((before ++ (key, value) :: after).map Prod.snd) = true) := by
  obtain ⟨isFields, _, header, number⟩ := select_format_ok shape run forceVarint head fields
    valuePrefix selected
  obtain ⟨count, length, kind, _, checked, body, written, _⟩ :=
    (encode_packed_run_ok shape (before ++ after) head fields valuePrefix old).mp encodable
  have result := promoted_fields fields (shape.fieldValues key)
    (count.trans (lawful.length_fields key).symm) (by
      rw [isFields]
      exact select_fields_narrow shape _)
  have check : checkFit shape head fields key =
      (promoteFields fields (shape.fieldValues key)).map fun found =>
        if found.1 then .ok (.needsPromotion (promotedHead shape head found.2) found.2)
        else .ok .fits := by
    rw [checkFit, if_neg (by simp [count]), if_neg (by simp [header])]
  generalize promoteFields fields (shape.fieldValues key) = promoted at result check
  -- the entries of the run, the new one among them, and what is known of each
  have held : ∀ entry ∈ before ++ (key, value) :: after, entry ≠ (key, value) →
      List.Forall₂ FieldFormat.Fits fields (shape.fieldValues entry.1) := by
    intro entry member other
    apply encoded_entries_fit shape lawful.length_fields head fields count _ body written
    rw [List.mem_append, List.mem_cons] at member
    rw [List.mem_append]
    exact member.imp_right fun either => either.resolve_left other
  have prefixed : ∀ entry ∈ before ++ (key, value) :: after,
      entry.2.take valuePrefix.length = valuePrefix := by
    intro entry member
    rw [List.mem_append, List.mem_cons] at member
    have known := check_prefix_starts valuePrefix _ checked
    rcases member with early | here | late
    · exact known _ (List.mem_map_of_mem (List.mem_append_left _ early))
    · rw [here]
      exact starts
    · exact known _ (List.mem_map_of_mem (List.mem_append_right _ late))
  cases result with
  | overruns overruns =>
      constructor
      · intro sound
        exact absurd check sound.no_overflow
      · intro both
        exact absurd overruns both.1
  | covered fine covers =>
      constructor
      · intro _
        exact ⟨fine, Or.inl covers⟩
      · intro _
        constructor
        · rw [check]
          exact Option.some_ne_none _
        · intro _
          apply encode_of_suits shape lawful head fields valuePrefix header count length kind
          · intro entry member
            rw [List.mem_singleton.mp member]
            exact ⟨covers.imp fun _ _ both => both.2, starts, short _ (by simp)⟩
          · intro _
            rfl
        · intro newHead newFields wide
          rw [check] at wide
          cases wide
  | widened wider fine outside same fits keeps =>
      constructor
      · intro sound
        obtain ⟨payload, encoded, _⟩ := sound.promoted _ _ check
        exact ⟨fine, Or.inr (((encode_packed_run_ok shape _ _ _ _ payload).mp encoded).2.2.2.1 rfl)⟩
      · intro both
        have uniform := both.2.resolve_left outside
        constructor
        · rw [check]
          exact Option.some_ne_none _
        · intro narrow
          rw [check] at narrow
          cases narrow
        · intro newHead newFields wide
          rw [check] at wide
          cases wide
          have suits : ∀ entry ∈ before ++ (key, value) :: after,
              (promotedHead shape head wider).Suits shape wider valuePrefix entry := by
            intro entry member
            refine ⟨?_, prefixed entry member, short entry member⟩
            by_cases here : entry = (key, value)
            · rw [here]
              exact fits
            · exact keeps _ (held entry member here)
          exact promoted_run_read_back shape lawful head wider valuePrefix header
            (same.trans count) length _ suits uniform ⟨(key, value), by simp⟩

/-- A wider field under values of one length. -/
theorem promotion_sound_widened :
    PromotionSound PackableKey.u64 ⟨1, 0, 0, 0, 8⟩ [⟨8, 0, 100⟩] [] 10000 [(100, [1])]
        [(355, [2])] [3] ↔
      ¬ KeyOverruns [⟨8, 0, 100⟩] [10000] ∧
        (List.Forall₂ FieldFormat.Covers [⟨8, 0, 100⟩] [10000] ∨
          uniformLengths [[1], [3], [2]] = true) :=
  promotion_sound_iff PackableKey.u64 PackableKey.u64_lawful [(100, [1]), (355, [2])] false
    ⟨1, 0, 0, 0, 8⟩ [⟨8, 0, 100⟩] [] (by decide +kernel) 10000 [(100, [1])] [(355, [2])] [3]
    [1, 0, 0, 0, 8, 0, 0, 0, 8, 0, 0, 0, 100, 0, 0, 0, 0, 0, 0, 0, 0, 0, 0, 0, 0, 1, 255, 2]
    (by decide +kernel) rfl (by decide)

/-- A promoted format of a run with values of two lengths refuses the run, and the range up to the
greatest number is an overflow. -/
theorem promoted_format_refuses_run :
    (selectFormatWithHint PackableKey.u64 [(0, [1]), (255, [])] false =
        .ok (⟨1, 0, 0, 1, 8⟩, [⟨8, 0, 0⟩], []) ∧
      ¬ PromotionSound PackableKey.u64 ⟨1, 0, 0, 1, 8⟩ [⟨8, 0, 0⟩] [] 10000 [(0, [1]), (255, [])] []
        []) ∧
    selectFormatWithHint PackableKey.u64
        [(UInt64.ofNat (2 ^ 64 - 2), []), (UInt64.ofNat (2 ^ 64 - 1), [])] false =
      .ok (⟨1, 0, 0, 0, 1⟩, [⟨1, 0, UInt64.ofNat (2 ^ 64 - 2)⟩], []) ∧
    checkFit PackableKey.u64 ⟨1, 0, 0, 0, 1⟩ [⟨1, 0, UInt64.ofNat (2 ^ 64 - 2)⟩] 0 = none := by
  refine ⟨⟨by decide +kernel, ?_⟩, by decide +kernel, by decide +kernel⟩
  intro sound
  obtain ⟨payload, encoded, _⟩ := sound.promoted ⟨1, 0, 0, 0, 14⟩ [⟨14, 0, 0⟩] (by decide +kernel)
  have refused : encodePackedRun PackableKey.u64 ([(0, [1]), (255, [])] ++ [(10000, [])])
      ⟨1, 0, 0, 0, 14⟩ [⟨14, 0, 0⟩] [] = .error (.malformed
        "encode: fixed mode requires uniform value lengths; select_format should have chosen VARINT")
      := by
    decide +kernel
  rw [refused] at encoded
  cases encoded

end Mimisbrunnr.Storage
