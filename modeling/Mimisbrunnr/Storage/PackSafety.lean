import Mimisbrunnr.Lib.Checked
import Mimisbrunnr.Storage.PackRoundTrip

/-!
# Faults of the packed decoder

The decoder with its cursor, its slices and its machine numbers. It does what
the decoder of lists of bytes does, except where a number of the payload takes
its arithmetic too far.
-/

namespace Mimisbrunnr.Storage

set_option autoImplicit false

open Mimisbrunnr.Lib
open Mimisbrunnr.Lib.Layout

variable {κ : Type}

namespace Cursor

/-- The bytes of the key header from the given one on. -/
def headerFrom (entriesBytes : List UInt8) (cursor : Nat) :
    Nat → Nat → UInt32 → Checked PackError UInt32
  | 0, _, header => .returns header
  | count + 1, b, header => do
      let position ← Checked.add cursor b
      let byte ← Checked.element entriesBytes position
      let part ← Checked.shiftLeft32 byte.toUInt32 (b * 8)
      headerFrom entriesBytes cursor count (b + 1) (header ||| part)

/-- The bits from a position on, behind those that are there. -/
def bitsFrom (packed : List UInt8) : Nat → Nat → UInt64 → Checked PackError UInt64
  | 0, _, out => .returns out
  | count + 1, position, out => do
      let byte ← Checked.element packed (position / 8)
      let bit := (byte >>> UInt8.ofNat (7 - position % 8)) &&& 1
      bitsFrom packed count (position + 1) ((out <<< 1) ||| bit.toUInt64)

def readBits (packed : List UInt8) (position : Nat) (width : UInt8) :
    Checked PackError (UInt64 × Nat) :=
  if width = 0 then .returns (0, position)
  else do
    Checked.assert (width ≤ 64)
    let stop ← Checked.add position width.toNat
    let bits ← Checked.multiply packed.length 8
    if bits < stop then .fails (.malformed "read_bits: out of range")
    else do
      let out ← bitsFrom packed width.toNat position 0
      .returns (out, stop)

def decodeFields (packed : List UInt8) :
    List FieldFormat → Nat → Checked PackError (List UInt64)
  | [], _ => .returns []
  | field :: fields, position => do
      let (delta, position) ← readBits packed position field.bitWidth
      let rest ← decodeFields packed fields position
      .returns ((field.base + delta) :: rest)

/-- A varint from a position on, with the groups that are there. -/
def varintFrom (bytes : List UInt8) (position shift : Nat) (result : UInt64) :
    Checked PackError (UInt64 × Nat) :=
  if bytes.length ≤ position then .fails (.malformed "varint: truncated")
  else do
    let byte ← Checked.element bytes position
    if 64 ≤ shift then .fails (.malformed "varint: too wide for u64")
    else
      let chunk := (byte &&& 127).toUInt64
      if shift = 63 ∧ 1 < chunk then .fails (.malformed "varint: too wide for u64")
      else do
        let part ← Checked.shiftLeft64 chunk shift
        if byte &&& 128 = 0 then .returns (result ||| part, position + 1)
        else varintFrom bytes (position + 1) (shift + 7) (result ||| part)
termination_by bytes.length - position
decreasing_by omega

/-- The length of the next value's tail, and where the tail starts. -/
def readTailLength (head : SortedRunKeyFormat) (valueSize : Nat) (entriesBytes : List UInt8)
    (cursor : Nat) : Checked PackError (Nat × Nat) :=
  if head.valueSizeKind = ValueSizeKind.fixed.toU8 then do
    let length ← Checked.subtract valueSize head.commonValuePrefix.toNat
    .returns (length, cursor)
  else do
    let (length, cursor) ← varintFrom entriesBytes cursor 0 0
    .returns (length.toNat, cursor)

/-- The entry at the cursor, and the cursor behind it. -/
def decodeEntry (shape : PackableKey κ) (head : SortedRunKeyFormat) (fields : List FieldFormat)
    (valuePrefix : List UInt8) (valueSize : Nat) (entriesBytes : List UInt8) (cursor : Nat) :
    Checked PackError ((κ × List UInt8) × Nat) := do
  let bodySize := bytesPerKey head fields
  let dataBytes ← Checked.subtract bodySize head.keyHeaderBytes.toNat
  let bodyStop ← Checked.add cursor bodySize
  if entriesBytes.length < bodyStop then .fails (.malformed "decode: entry body truncated")
  else do
    let header ← headerFrom entriesBytes cursor head.keyHeaderBytes.toNat 0 0
    let start ← Checked.add cursor head.keyHeaderBytes.toNat
    let stop ← Checked.add start dataBytes
    let packed ← Checked.slice entriesBytes start stop
    let values ← decodeFields packed fields 0
    let (tailLength, tailStart) ← readTailLength head valueSize entriesBytes stop
    let tailStop ← Checked.add tailStart tailLength
    if entriesBytes.length < tailStop then .fails (.malformed "decode: value tail truncated")
    else do
      let tail ← Checked.slice entriesBytes tailStart tailStop
      let key ← Checked.lift (shape.fromComponents header values)
      .returns ((key, valuePrefix ++ tail), tailStop)

def decodeEntries (shape : PackableKey κ) (head : SortedRunKeyFormat) (fields : List FieldFormat)
    (valuePrefix : List UInt8) (valueSize : Nat) (entriesBytes : List UInt8) :
    Nat → Nat → Checked PackError (List (κ × List UInt8))
  | 0, _ => .returns []
  | count + 1, cursor => do
      let (entry, cursor) ←
        decodeEntry shape head fields valuePrefix valueSize entriesBytes cursor
      let later ← decodeEntries shape head fields valuePrefix valueSize entriesBytes count cursor
      .returns (entry :: later)

/-- The descriptor by the slices it is cut from. -/
def parse (bytes : List UInt8) :
    Checked StorageError (SortedRunKeyFormat × List FieldFormat × List UInt8) :=
  if bytes.length < SortedRunKeyFormat.layout.size then
    .fails (.bufferTooSmall SortedRunKeyFormat.layout.size bytes.length)
  else do
    let headBytes ← Checked.slice bytes 0 SortedRunKeyFormat.layout.size
    let head := SortedRunKeyFormat.layout.ofBytes headBytes
    let fieldsSize ← Checked.multiply head.nrFields.toNat FieldFormat.layout.size
    let fieldsEnd ← Checked.add SortedRunKeyFormat.layout.size fieldsSize
    let total ← Checked.add fieldsEnd head.commonValuePrefix.toNat
    if bytes.length < total then .fails (.bufferTooSmall total bytes.length)
    else do
      let fieldsBytes ← Checked.slice bytes SortedRunKeyFormat.layout.size fieldsEnd
      let valuePrefix ← Checked.slice bytes fieldsEnd total
      .returns (head, SortedRunKeyFormat.parseFields head.nrFields.toNat fieldsBytes, valuePrefix)

/-- The check of all entries at once, which runs of values of one length get. -/
def checkEntries (head : SortedRunKeyFormat) (fields : List FieldFormat) (valueSize entryCount : Nat)
    (entriesBytes : List UInt8) : Checked PackError Unit :=
  if head.valueSizeKind = ValueSizeKind.fixed.toU8 then
    if valueSize < head.commonValuePrefix.toNat then
      .fails (.invalidPrefix head.commonValuePrefix.toNat)
    else do
      let tailSize ← Checked.subtract valueSize head.commonValuePrefix.toNat
      let stride ← Checked.add (bytesPerKey head fields) tailSize
      let needed ← Checked.multiply entryCount stride
      if entriesBytes.length < needed then .fails (.malformed "decode: entries truncated")
      else .returns ()
  else if head.valueSizeKind = ValueSizeKind.varint.toU8 then .returns ()
  else .fails (.malformed "decode: unknown value_size_kind")

def decodePackedRun (shape : PackableKey κ) (payload : List UInt8) (valueSize : Nat)
    (entryCount : UInt32) :
    Checked PackError (List (κ × List UInt8) × SortedRunKeyFormat × List FieldFormat) :=
  match parse payload with
  | .stops fault => .stops fault
  | .fails _ => .fails (.malformed "decode: format header truncated")
  | .returns (head, fields, valuePrefix) =>
      if head.nrFields.toNat ≠ shape.nrFields then
        .fails (.malformed "decode: descriptor nr_fields mismatch with PackableKey")
      else do
        Checked.assert (valuePrefix.length = head.commonValuePrefix.toNat)
        let entriesBytes ← Checked.slice payload head.totalSize payload.length
        checkEntries head fields valueSize entryCount.toNat entriesBytes
        let entries ← decodeEntries shape head fields valuePrefix valueSize entriesBytes
          entryCount.toNat 0
        .returns (entries, head, fields)

private theorem shifted_bit (out : UInt64) (bit : Bool) :
    (out <<< 1) ||| UInt64.ofNat bit.toNat = UInt64.ofNat (2 * out.toNat + bit.toNat) := by
  apply UInt64.toNat_inj.mp
  have small : bit.toNat < 2 := by
    cases bit <;> decide
  have number : (UInt64.ofNat bit.toNat).toNat = bit.toNat := by
    rw [UInt64.toNat_ofNat']
    exact Nat.mod_eq_of_lt (by omega)
  have double : (out <<< 1).toNat = 2 ^ 1 * (out.toNat % 2 ^ 63) := by
    rw [UInt64.toNat_shiftLeft]
    have one : (1 : UInt64).toNat % 64 = 1 := rfl
    rw [one, Nat.shiftLeft_eq]
    omega
  rw [UInt64.toNat_or, number, double, ← Nat.two_pow_add_eq_or_of_lt small, UInt64.toNat_ofNat']
  omega

private theorem byte_bit (byte : UInt8) (position : Nat) :
    ((byte >>> UInt8.ofNat (7 - position % 8)) &&& 1).toUInt64 =
      UInt64.ofNat (byte.toNat.testBit (7 - position % 8)).toNat := by
  apply UInt64.toNat_inj.mp
  have amount : (UInt8.ofNat (7 - position % 8)).toNat % 8 = 7 - position % 8 := by
    rw [UInt8.toNat_ofNat']
    omega
  have one : (1 : UInt8).toNat = 1 := rfl
  rw [UInt8.toNat_toUInt64, UInt8.toNat_and, UInt8.toNat_shiftRight, amount, one,
    Nat.and_one_is_mod, Nat.shiftRight_eq_div_pow, Nat.toNat_testBit, UInt64.toNat_ofNat']
  omega

private theorem bits_from_returns (packed : List UInt8) (count : Nat) :
    ∀ (position : Nat) (out : UInt64), position + count ≤ 8 * packed.length →
      bitsFrom packed count position out = .returns (UInt64.ofNat (out.toNat * 2 ^ count +
        BitStream.ofBits (((BitStream.ofBytes packed).drop position).take count))) := by
  induction count with
  | zero =>
      intro position out _
      rw [bitsFrom, List.take_zero, BitStream.ofBits, List.foldl_nil, Nat.pow_zero, Nat.mul_one,
        Nat.add_zero, UInt64.ofNat_toNat]
  | succ count ih =>
      intro position out room
      have inside : position / 8 < packed.length := by omega
      have rest : (((BitStream.ofBytes packed).drop (position + 1)).take count).length = count := by
        rw [List.length_take, List.length_drop, BitStream.length_of_bytes]
        omega
      rw [bitsFrom, Checked.element_returns packed _ inside, Checked.bind_returns]
      dsimp only
      rw [byte_bit, shifted_bit, ih _ _ (by omega),
        BitStream.drop_of_bytes packed position _ (List.getElem?_eq_getElem inside),
        List.take_succ_cons, BitStream.of_bits_cons, rest]
      congr 1
      apply UInt64.toNat_inj.mp
      simp only [UInt64.toNat_ofNat']
      rw [Nat.add_mod, Nat.mod_mul_mod, ← Nat.add_mod]
      congr 1
      ring

/-- A width is asserted to be at most 64. -/
theorem read_bits_meets (packed : List UInt8) (position : Nat) (width : UInt8)
    (small : packed.length * 8 < 2 ^ 64) (room : position + width.toNat ≤ 8 * packed.length) :
    Checked.Meets (readBits packed position width) (width.toNat ≤ 64)
        (Storage.readBits packed position width) ∧
      ∀ found, Storage.readBits packed position width = .ok found →
        found.2 = position + width.toNat := by
  unfold readBits Storage.readBits
  by_cases constant : width = 0
  · rw [if_pos constant, if_pos constant, constant]
    constructor
    · exact Checked.Meets.of_holds (Nat.zero_le _) rfl
    · intro found same
      cases same
      rfl
  · rw [if_neg constant, if_neg constant, if_neg (by omega)]
    constructor
    · by_cases narrow : width ≤ 64
      · rw [Checked.assert, if_pos (decide_eq_true narrow), Checked.bind_returns,
          Checked.add_returns _ _ (by omega), Checked.bind_returns,
          Checked.multiply_returns _ _ small, Checked.bind_returns, if_neg (by omega),
          bits_from_returns packed _ _ _ (by omega), Checked.bind_returns]
        have zero : (0 : UInt64).toNat = 0 := rfl
        rw [zero, Nat.zero_mul, Nat.zero_add]
        exact Checked.Meets.of_holds (UInt8.le_iff_toNat_le.mp narrow) rfl
      · rw [Checked.assert, if_neg (by simpa using narrow), Checked.bind_stops]
        exact Checked.Meets.of_stops _ fun short => narrow (UInt8.le_iff_toNat_le.mpr short)
    · intro found same
      cases same
      rfl

private theorem decode_fields_meets (packed : List UInt8) (small : packed.length * 8 < 2 ^ 64)
    (fields : List FieldFormat) :
    ∀ position, position + dataBitsPerKey fields ≤ 8 * packed.length →
      Checked.Meets (decodeFields packed fields position)
          (∀ field ∈ fields, field.bitWidth.toNat ≤ 64)
          (Storage.decodeFields packed fields position) ∧
        ∃ values, Storage.decodeFields packed fields position = .ok values := by
  induction fields with
  | nil =>
      intro position _
      constructor
      · exact Checked.Meets.of_holds (fun field member => absurd member List.not_mem_nil) rfl
      · exact ⟨[], rfl⟩
  | cons field fields ih =>
      intro position room
      rw [dataBitsPerKey, List.map_cons, List.sum_cons, ← dataBitsPerKey] at room
      obtain ⟨meets, moved⟩ := read_bits_meets packed position field.bitWidth small (by omega)
      have whole : ∃ delta, Storage.readBits packed position field.bitWidth =
          .ok (delta, position + field.bitWidth.toNat) := by
        cases read : Storage.readBits packed position field.bitWidth with
        | error err =>
            unfold Storage.readBits at read
            split at read
            · cases read
            · rw [if_neg (by omega)] at read
              cases read
        | ok found => exact ⟨found.1, congrArg _ (Prod.ext rfl (moved found read))⟩
      obtain ⟨delta, read⟩ := whole
      obtain ⟨later, values, decoded⟩ := ih (position + field.bitWidth.toNat) (by omega)
      constructor
      · apply (meets.bind
          (fun found => decodeFields packed fields found.2 >>= fun rest =>
            .returns ((field.base + found.1) :: rest))
          (fun _ => ∀ other ∈ fields, other.bitWidth.toNat ≤ 64)
          (fun found => Storage.decodeFields packed fields found.2 >>= fun rest =>
            .ok ((field.base + found.1) :: rest))
          (by
            intro found _ same
            rw [read] at same
            cases same
            exact later.map fun rest => (field.base + delta) :: rest)).congr
        · constructor
          · intro narrow other member
            cases List.mem_cons.mp member with
            | inl here =>
                rw [here]
                exact narrow.1
            | inr elsewhere => exact narrow.2 _ read other elsewhere
          · intro narrow
            exact ⟨narrow field List.mem_cons_self, fun _ _ other member =>
              narrow other (List.mem_cons_of_mem field member)⟩
        · intro _
          rfl
      · refine ⟨(field.base + delta) :: values, ?_⟩
        simp only [Storage.decodeFields, read, decoded, bind, Except.bind]

private theorem header_part (header : UInt32) (byte : UInt8) (b : Nat) (narrow : b < 4)
    (small : header.toNat < 2 ^ (b * 8)) :
    header ||| (byte.toUInt32 <<< UInt32.ofNat (b * 8)) =
      UInt32.ofNat (header.toNat + byte.toNat * 2 ^ (b * 8)) := by
  apply UInt32.toNat_inj.mp
  have amount : (UInt32.ofNat (b * 8)).toNat % 32 = b * 8 := by
    rw [UInt32.toNat_ofNat']
    omega
  have below := byte.toNat_lt
  have power : 2 ^ 8 * 2 ^ (b * 8) ≤ 2 ^ 32 := by
    rw [← Nat.pow_add]
    exact Nat.pow_le_pow_right (by omega) (by omega)
  have product : byte.toNat * 2 ^ (b * 8) < 2 ^ 32 := by
    have less : byte.toNat * 2 ^ (b * 8) < 2 ^ 8 * 2 ^ (b * 8) :=
      Nat.mul_lt_mul_of_pos_right below (Nat.two_pow_pos _)
    omega
  have shifted : (byte.toUInt32 <<< UInt32.ofNat (b * 8)).toNat = 2 ^ (b * 8) * byte.toNat := by
    rw [UInt32.toNat_shiftLeft, amount, UInt8.toNat_toUInt32, Nat.shiftLeft_eq,
      Nat.mod_eq_of_lt product, Nat.mul_comm]
  have total : header.toNat + byte.toNat * 2 ^ (b * 8) < 2 ^ 32 := by
    have step : byte.toNat * 2 ^ (b * 8) + 2 ^ (b * 8) ≤ 2 ^ 8 * 2 ^ (b * 8) := by
      rw [← Nat.succ_mul]
      exact Nat.mul_le_mul_right _ below
    omega
  rw [UInt32.toNat_or, shifted, Nat.or_comm, ← Nat.two_pow_add_eq_or_of_lt small,
    UInt32.toNat_ofNat', Nat.mod_eq_of_lt total, Nat.mul_comm, Nat.add_comm]

/-- A key header of more than four bytes shifts a byte out of its number. -/
theorem header_from_meets (entriesBytes : List UInt8) (cursor count : Nat)
    (short : entriesBytes.length < 2 ^ 63) :
    ∀ (b : Nat) (header : UInt32), cursor + b + count ≤ entriesBytes.length →
      (b ≤ 4 → header.toNat < 2 ^ (b * 8)) →
      Checked.Meets (headerFrom entriesBytes cursor count b header) (count = 0 ∨ b + count ≤ 4)
        (.ok (UInt32.ofNat (header.toNat +
          leValue ((entriesBytes.drop (cursor + b)).take count) * 2 ^ (b * 8)))) := by
  induction count with
  | zero =>
      intro b header _ _
      apply Checked.Meets.of_holds (Or.inl rfl)
      rw [headerFrom, List.take_zero, leValue, Nat.zero_mul, Nat.add_zero, UInt32.ofNat_toNat]
      rfl
  | succ count ih =>
      intro b header room small
      have inside : cursor + b < entriesBytes.length := by omega
      rw [headerFrom, Checked.add_returns _ _ (by omega), Checked.bind_returns,
        Checked.element_returns _ _ inside, Checked.bind_returns]
      by_cases narrow : b < 4
      · have below := entriesBytes[cursor + b].toNat_lt
        have part := header_part header entriesBytes[cursor + b] b narrow (small (by omega))
        have power : 2 ^ ((b + 1) * 8) = 2 ^ 8 * 2 ^ (b * 8) := by
          rw [← Nat.pow_add]
          congr 1
          omega
        have bound : header.toNat + entriesBytes[cursor + b].toNat * 2 ^ (b * 8) <
            2 ^ ((b + 1) * 8) := by
          have step : entriesBytes[cursor + b].toNat * 2 ^ (b * 8) + 2 ^ (b * 8) ≤
              2 ^ 8 * 2 ^ (b * 8) := by
            rw [← Nat.succ_mul]
            exact Nat.mul_le_mul_right _ below
          have smaller := small (by omega)
          omega
        have number : (UInt32.ofNat (header.toNat +
            entriesBytes[cursor + b].toNat * 2 ^ (b * 8))).toNat =
              header.toNat + entriesBytes[cursor + b].toNat * 2 ^ (b * 8) := by
          rw [UInt32.toNat_ofNat']
          apply Nat.mod_eq_of_lt
          have top : 2 ^ ((b + 1) * 8) ≤ 2 ^ 32 := Nat.pow_le_pow_right (by omega) (by omega)
          omega
        rw [Checked.shiftLeft32, if_pos (by omega), Checked.bind_returns, part]
        apply (ih (b + 1) _ (by omega) (by
          intro _
          rw [number]
          exact bound)).congr
        · omega
        · intro _
          rw [number, List.drop_eq_getElem_cons inside, List.take_succ_cons, leValue, power,
            Nat.add_assoc cursor b 1]
          congr 2
          ring
      · rw [Checked.shiftLeft32, if_neg (by omega), Checked.bind_stops]
        exact Checked.Meets.of_stops _ (by omega)

private theorem varint_part (result : UInt64) (byte : UInt8) (shift : Nat) (narrow : shift < 64)
    (small : result.toNat < 2 ^ shift) (fits : byte.toNat % 128 * 2 ^ shift < 2 ^ 64) :
    result ||| ((byte &&& 127).toUInt64 <<< UInt64.ofNat shift) =
      UInt64.ofNat (result.toNat + byte.toNat % 128 * 2 ^ shift) := by
  apply UInt64.toNat_inj.mp
  have amount : (UInt64.ofNat shift).toNat % 64 = shift := by
    rw [UInt64.toNat_ofNat']
    omega
  have group : (byte &&& 127).toUInt64.toNat = byte.toNat % 128 := by
    rw [UInt8.toNat_toUInt64, UInt8.toNat_and]
    exact Nat.and_two_pow_sub_one_eq_mod _ 7
  have shifted : ((byte &&& 127).toUInt64 <<< UInt64.ofNat shift).toNat =
      2 ^ shift * (byte.toNat % 128) := by
    rw [UInt64.toNat_shiftLeft, amount, group, Nat.shiftLeft_eq, Nat.mod_eq_of_lt fits,
      Nat.mul_comm]
  have total : result.toNat + byte.toNat % 128 * 2 ^ shift < 2 ^ 64 := by
    obtain ⟨rest, whole⟩ := Nat.pow_dvd_pow 2 (Nat.le_of_lt narrow)
    rw [whole, Nat.mul_comm (2 ^ shift)] at fits
    have less : byte.toNat % 128 + 1 ≤ rest := Nat.lt_of_mul_lt_mul_right fits
    have step : (byte.toNat % 128 + 1) * 2 ^ shift ≤ rest * 2 ^ shift := Nat.mul_le_mul_right _ less
    rw [Nat.succ_mul, Nat.mul_comm rest, ← whole] at step
    omega
  rw [UInt64.toNat_or, shifted, Nat.or_comm, ← Nat.two_pow_add_eq_or_of_lt small,
    UInt64.toNat_ofNat', Nat.mod_eq_of_lt total, Nat.mul_comm, Nat.add_comm]

private theorem last_group (byte : UInt8) : byte &&& 128 = 0 ↔ byte.toNat < 128 := by
  have below := byte.toNat_lt
  have bit : (byte &&& 128).toNat = (byte.toNat.testBit 7).toNat * 2 ^ 7 := by
    rw [UInt8.toNat_and]
    exact Nat.and_two_pow byte.toNat 7
  rw [← UInt8.toNat_inj, bit, Nat.toNat_testBit]
  have zero : (0 : UInt8).toNat = 0 := rfl
  omega

/-- What a varint is read as, for the cursor. -/
def varintFound (bytes : List UInt8) (start : Nat) :
    Except BitStream.VarintError (Nat × List UInt8) → Except PackError (UInt64 × Nat)
  | .ok (number, rest) => .ok (UInt64.ofNat (start + number), bytes.length - rest.length)
  | .error .truncated => .error (.malformed "varint: truncated")
  | .error .tooWide => .error (.malformed "varint: too wide for u64")

/-- Varints are read without a fault. -/
theorem varint_from_lift (bytes rest : List UInt8) :
    ∀ (before : List UInt8) (shift : Nat) (result : UInt64), bytes = before ++ rest →
      shift % 7 = 0 → (shift < 64 → result.toNat < 2 ^ shift) →
      varintFrom bytes before.length shift result =
        Checked.lift (varintFound bytes result.toNat (BitStream.readVarint shift rest)) := by
  induction rest with
  | nil =>
      intro before shift result same _ _
      rw [List.append_nil] at same
      rw [varintFrom, if_pos (by rw [same]), BitStream.readVarint]
      rfl
  | cons byte rest ih =>
      intro before shift result same sevenfold small
      have room : ¬ bytes.length ≤ before.length := by
        rw [same, List.length_append, List.length_cons]
        omega
      have here : (Checked.element bytes before.length : Checked PackError UInt8) =
          .returns byte := by
        rw [Checked.element, same, List.getElem?_append_right (Nat.le_refl _), Nat.sub_self,
          List.getElem?_cons_zero]
      have group : (byte &&& 127).toUInt64.toNat = byte.toNat % 128 := by
        rw [UInt8.toNat_toUInt64, UInt8.toNat_and]
        exact Nat.and_two_pow_sub_one_eq_mod _ 7
      have one : (1 : UInt64).toNat = 1 := rfl
      rw [varintFrom, if_neg room, here, Checked.bind_returns, BitStream.readVarint]
      dsimp only
      by_cases wide : 64 ≤ shift
      · rw [if_pos wide, if_pos (Or.inl wide)]
        rfl
      by_cases top : shift = 63 ∧ 1 < byte.toNat % 128
      · rw [if_neg wide, if_pos ⟨top.1, by rw [UInt64.lt_iff_toNat_lt, group, one]; exact top.2⟩,
          if_pos (Or.inr top)]
        rfl
      have fits : byte.toNat % 128 * 2 ^ shift < 2 ^ 64 := by
        by_cases last : shift = 63
        · subst last
          have digit : byte.toNat % 128 * 2 ^ 63 ≤ 1 * 2 ^ 63 := Nat.mul_le_mul_right _ (by omega)
          omega
        · have digit : byte.toNat % 128 * 2 ^ shift ≤ 127 * 2 ^ shift :=
            Nat.mul_le_mul_right _ (by omega)
          have power : 2 ^ shift ≤ 2 ^ 56 := Nat.pow_le_pow_right (by omega) (by omega)
          omega
      have part := varint_part result byte shift (by omega) (small (by omega)) fits
      have guard : ¬ (64 ≤ shift ∨ (shift = 63 ∧ 1 < byte.toNat % 128)) := by omega
      rw [if_neg wide, if_neg (by
        intro both
        rw [UInt64.lt_iff_toNat_lt, group, one] at both
        exact top both), if_neg guard, Checked.shiftLeft64, if_pos (by omega),
        Checked.bind_returns, part]
      have total : result.toNat + byte.toNat % 128 * 2 ^ shift < 2 ^ 64 ∧
          (shift + 7 < 64 → result.toNat + byte.toNat % 128 * 2 ^ shift < 2 ^ (shift + 7)) := by
        have smaller := small (by omega)
        have spread : 2 ^ (shift + 7) = 128 * 2 ^ shift := by
          rw [Nat.pow_add]
          omega
        have step : byte.toNat % 128 * 2 ^ shift + 2 ^ shift ≤ 128 * 2 ^ shift := by
          rw [← Nat.succ_mul]
          exact Nat.mul_le_mul_right _ (Nat.mod_lt _ (by omega))
        constructor
        · by_cases last : shift = 63
          · subst last
            have digit : byte.toNat % 128 * 2 ^ 63 ≤ 1 * 2 ^ 63 :=
              Nat.mul_le_mul_right _ (by omega)
            omega
          · have power : 2 ^ (shift + 7) ≤ 2 ^ 63 := Nat.pow_le_pow_right (by omega) (by omega)
            omega
        · intro _
          omega
      have number : (UInt64.ofNat (result.toNat + byte.toNat % 128 * 2 ^ shift)).toNat =
          result.toNat + byte.toNat % 128 * 2 ^ shift := by
        rw [UInt64.toNat_ofNat']
        exact Nat.mod_eq_of_lt total.1
      by_cases last : byte.toNat < 128
      · rw [if_pos ((last_group byte).mpr last), if_pos last, varintFound,
          Nat.mod_eq_of_lt last]
        have position : before.length + 1 = bytes.length - rest.length := by
          rw [same, List.length_append, List.length_cons]
          omega
        rw [position]
        rfl
      · rw [if_neg (fun zero => last ((last_group byte).mp zero)), if_neg last]
        have later := ih (before ++ [byte]) (shift + 7)
          (UInt64.ofNat (result.toNat + byte.toNat % 128 * 2 ^ shift))
          (by rw [same, List.append_assoc, List.singleton_append]) (by omega) (by
            intro narrow
            rw [number]
            exact total.2 narrow)
        rw [List.length_append, List.length_singleton, number] at later
        rw [later]
        cases BitStream.readVarint (shift + 7) rest with
        | error err =>
            cases err with
            | truncated => rfl
            | tooWide => rfl
        | ok found =>
            rw [Except.map, varintFound, varintFound, Nat.add_assoc]

def at_ (entriesBytes bytes : List UInt8) : Nat := entriesBytes.length - bytes.length

private theorem drop_at (entriesBytes bytes : List UInt8) (left : bytes <:+ entriesBytes) :
    entriesBytes.drop (at_ entriesBytes bytes) = bytes :=
  (List.suffix_iff_eq_drop.mp left).symm

private theorem at_drop (entriesBytes bytes : List UInt8) (count : Nat)
    (left : bytes <:+ entriesBytes)
    (inside : count ≤ bytes.length) :
    at_ entriesBytes (bytes.drop count) = at_ entriesBytes bytes + count := by
  have bound := left.length_le
  unfold at_
  rw [List.length_drop]
  omega

theorem read_tail_length_lift (head : SortedRunKeyFormat) (valueSize : Nat)
    (entriesBytes bytes : List UInt8) (left : bytes <:+ entriesBytes)
    (size : head.valueSizeKind = ValueSizeKind.fixed.toU8 →
      head.commonValuePrefix.toNat ≤ valueSize) :
    readTailLength head valueSize entriesBytes (at_ entriesBytes bytes) =
        Checked.lift ((Storage.readTailLength head valueSize bytes).map fun found =>
          (found.1, at_ entriesBytes found.2)) ∧
      ∀ found, Storage.readTailLength head valueSize bytes = .ok found → found.2 <:+ bytes := by
  unfold readTailLength Storage.readTailLength
  by_cases fixed : head.valueSizeKind = ValueSizeKind.fixed.toU8
  · rw [if_pos fixed, if_pos fixed, Checked.subtract_returns _ _ (size fixed),
      Checked.bind_returns]
    constructor
    · rfl
    · intro found same
      cases same
      exact List.suffix_refl bytes
  · obtain ⟨before, whole⟩ := left
    have place : at_ entriesBytes bytes = before.length := by
      rw [at_, ← whole, List.length_append]
      omega
    have zero : (0 : UInt64).toNat = 0 := rfl
    have lifted := varint_from_lift entriesBytes bytes before 0 0 whole.symm rfl
      (fun _ => Nat.zero_lt_one)
    rw [if_neg fixed, if_neg fixed, place, lifted, zero]
    cases read : BitStream.readVarint 0 bytes with
    | error err =>
        constructor
        · cases err with
          | truncated => rfl
          | tooWide => rfl
        · intro found same
          cases err <;> cases same
    | ok found =>
        obtain ⟨small, behind⟩ := BitStream.read_varint_small bytes 0 rfl found read
        have number : (UInt64.ofNat (0 + found.1)).toNat = found.1 := by
          rw [UInt64.toNat_ofNat', Nat.zero_add]
          apply Nat.mod_eq_of_lt
          omega
        constructor
        · rw [varintFound, Checked.lift, Checked.bind_returns]
          dsimp only
          rw [number]
          rfl
        · intro other same
          cases same
          exact behind

/-- What the bytes left for an entry must hold, unless they are too few for its key. -/
def EntrySafe (head : SortedRunKeyFormat) (fields : List FieldFormat) (valueSize : Nat)
    (entriesBytes bytes : List UInt8) : Prop :=
  bytesPerKey head fields ≤ bytes.length →
    head.keyHeaderBytes.toNat ≤ 4 ∧ (∀ field ∈ fields, field.bitWidth.toNat ≤ 64) ∧
      ∀ tailLength rest,
        Storage.readTailLength head valueSize (bytes.drop (bytesPerKey head fields)) =
          .ok (tailLength, rest) →
        at_ entriesBytes rest + tailLength < 2 ^ 64

section

variable (shape : PackableKey κ) (head : SortedRunKeyFormat) (fields : List FieldFormat)
  (valuePrefix : List UInt8) (valueSize : Nat) (entriesBytes : List UInt8)
  (short : entriesBytes.length < 2 ^ 63) (few : dataBitsPerKey fields ≤ 2 ^ 16)
  (size : head.valueSizeKind = ValueSizeKind.fixed.toU8 →
    head.commonValuePrefix.toNat ≤ valueSize)

include short few size

/-- The key of an entry is read without a fault if its header and its fields are narrow. -/
theorem decode_entry_meets (bytes : List UInt8) (left : bytes <:+ entriesBytes) :
    Checked.Meets (decodeEntry shape head fields valuePrefix valueSize entriesBytes
        (at_ entriesBytes bytes)) (EntrySafe head fields valueSize entriesBytes bytes)
      ((Storage.decodeEntry shape head fields valuePrefix valueSize bytes).map fun found =>
        (found.1, at_ entriesBytes found.2)) := by
  have bound := left.length_le
  have headerBound := head.keyHeaderBytes.toNat_lt
  have body : bytesPerKey head fields = head.keyHeaderBytes.toNat +
      (dataBitsPerKey fields + 7) / 8 := rfl
  have place : at_ entriesBytes bytes = entriesBytes.length - bytes.length := rfl
  have rest := drop_at entriesBytes bytes left
  unfold decodeEntry Storage.decodeEntry
  dsimp only
  rw [Checked.subtract_returns _ _ (by omega), Checked.bind_returns,
    Checked.add_returns _ _ (by omega), Checked.bind_returns]
  by_cases truncated : bytes.length < bytesPerKey head fields
  · rw [if_pos (by omega), if_pos truncated]
    exact Checked.Meets.of_holds (fun enough => absurd truncated (Nat.not_lt.mpr enough)) rfl
  rw [if_neg (by omega), if_neg truncated]
  have headerMeets := header_from_meets entriesBytes (at_ entriesBytes bytes)
    head.keyHeaderBytes.toNat short 0 0 (by omega) (fun _ => Nat.zero_lt_one)
  have zero : (0 : UInt32).toNat = 0 := rfl
  simp only [Nat.add_zero, Nat.zero_add, Nat.zero_mul, Nat.pow_zero, Nat.mul_one, zero, rest]
    at headerMeets
  by_cases header : head.keyHeaderBytes.toNat ≤ 4
  case neg =>
    obtain ⟨fault, stopped⟩ := headerMeets.stops_of_not (by omega)
    rw [stopped, Checked.bind_stops]
    exact Checked.Meets.of_stops fault fun safe => header (safe (Nat.not_lt.mp truncated)).1
  -- the slice of the packed fields, in which they have room
  have stop : at_ entriesBytes bytes + head.keyHeaderBytes.toNat +
      (bytesPerKey head fields - head.keyHeaderBytes.toNat) =
        at_ entriesBytes (bytes.drop (bytesPerKey head fields)) := by
    rw [at_drop entriesBytes bytes _ left (by omega)]
    omega
  have behind : bytes.drop (bytesPerKey head fields) <:+ entriesBytes :=
    (List.drop_suffix _ _).trans left
  have packed : (entriesBytes.drop (at_ entriesBytes bytes + head.keyHeaderBytes.toNat)).take
      (at_ entriesBytes (bytes.drop (bytesPerKey head fields)) -
        (at_ entriesBytes bytes + head.keyHeaderBytes.toNat)) =
      (bytes.drop head.keyHeaderBytes.toNat).take
        (bytesPerKey head fields - head.keyHeaderBytes.toNat) := by
    rw [← stop, Nat.add_sub_cancel_left, ← List.drop_drop, rest]
  have sliced : at_ entriesBytes (bytes.drop (bytesPerKey head fields)) ≤ entriesBytes.length := by
    rw [at_]
    omega
  have length : ((bytes.drop head.keyHeaderBytes.toNat).take
      (bytesPerKey head fields - head.keyHeaderBytes.toNat)).length =
        (dataBitsPerKey fields + 7) / 8 := by
    rw [List.length_take, List.length_drop]
    omega
  obtain ⟨fieldsMeets, values, decoded⟩ := decode_fields_meets
    ((bytes.drop head.keyHeaderBytes.toNat).take
      (bytesPerKey head fields - head.keyHeaderBytes.toNat)) (by omega) fields 0 (by omega)
  rw [headerMeets.result (by omega), Checked.lift, Checked.bind_returns,
    Checked.add_returns _ _ (by omega), Checked.bind_returns,
    Checked.add_returns _ _ (by omega), Checked.bind_returns, stop,
    Checked.slice_returns _ _ _ (by omega) sliced, Checked.bind_returns, packed]
  by_cases narrow : ∀ field ∈ fields, field.bitWidth.toNat ≤ 64
  case neg =>
    obtain ⟨fault, stopped⟩ := fieldsMeets.stops_of_not narrow
    rw [stopped, Checked.bind_stops]
    exact Checked.Meets.of_stops fault fun safe => narrow (safe (Nat.not_lt.mp truncated)).2.1
  obtain ⟨tail, suffix⟩ := read_tail_length_lift head valueSize entriesBytes
    (bytes.drop (bytesPerKey head fields)) behind size
  rw [fieldsMeets.result narrow, decoded, Checked.lift, Checked.bind_returns, tail]
  cases read : Storage.readTailLength head valueSize (bytes.drop (bytesPerKey head fields)) with
  | error err =>
      apply Checked.Meets.of_holds
      · intro _
        refine ⟨header, narrow, fun tailLength rest same => ?_⟩
        rw [read] at same
        cases same
      · rfl
  | ok found =>
      obtain ⟨tailLength, tailBytes⟩ := found
      have after : tailBytes <:+ entriesBytes := (suffix _ read).trans behind
      have tailBound := after.length_le
      have safe_iff : EntrySafe head fields valueSize entriesBytes bytes ↔
          at_ entriesBytes tailBytes + tailLength < 2 ^ 64 := by
        constructor
        · intro safe
          exact (safe (Nat.not_lt.mp truncated)).2.2 tailLength tailBytes read
        · intro fits _
          refine ⟨header, narrow, fun other rest same => ?_⟩
          rw [read] at same
          cases same
          exact fits
      rw [Except.map, Checked.lift, Checked.bind_returns]
      dsimp only
      by_cases fits : at_ entriesBytes tailBytes + tailLength < 2 ^ 64
      case neg =>
        rw [Checked.add, if_neg fits, Checked.bind_stops]
        exact Checked.Meets.of_stops _ fun safe => fits (safe_iff.mp safe)
      rw [Checked.add_returns _ _ fits, Checked.bind_returns]
      have cursor : at_ entriesBytes tailBytes = entriesBytes.length - tailBytes.length := rfl
      by_cases cut : tailBytes.length < tailLength
      · rw [if_pos (by omega)]
        apply Checked.Meets.of_holds (safe_iff.mpr fits)
        simp only [bind, Except.bind]
        rw [if_pos cut]
        rfl
      have tailStop : at_ entriesBytes tailBytes + tailLength =
          at_ entriesBytes (tailBytes.drop tailLength) :=
        (at_drop entriesBytes tailBytes tailLength after (by omega)).symm
      rw [if_neg (by omega), Checked.slice_returns _ _ _ (by omega) (by omega),
        Checked.bind_returns, drop_at entriesBytes tailBytes after, Nat.add_sub_cancel_left,
        tailStop]
      apply Checked.Meets.of_holds (safe_iff.mpr fits)
      simp only [bind, Except.bind]
      rw [if_neg cut]
      cases shape.fromComponents (UInt32.ofNat (leValue (bytes.take head.keyHeaderBytes.toNat)))
          values with
      | error err => rfl
      | ok key => rfl

end

private theorem decode_entry_suffix (shape : PackableKey κ) (head : SortedRunKeyFormat)
    (fields : List FieldFormat) (valuePrefix : List UInt8) (valueSize : Nat)
    (entriesBytes : List UInt8)
    (size : head.valueSizeKind = ValueSizeKind.fixed.toU8 →
      head.commonValuePrefix.toNat ≤ valueSize)
    (bytes : List UInt8) (left : bytes <:+ entriesBytes)
    (found : (κ × List UInt8) × List UInt8)
    (decoded : Storage.decodeEntry shape head fields valuePrefix valueSize bytes = .ok found) :
    found.2 <:+ entriesBytes := by
  have behind : bytes.drop (bytesPerKey head fields) <:+ entriesBytes :=
    (List.drop_suffix _ _).trans left
  obtain ⟨_, suffix⟩ := read_tail_length_lift head valueSize entriesBytes
    (bytes.drop (bytesPerKey head fields)) behind size
  unfold Storage.decodeEntry at decoded
  dsimp only at decoded
  split at decoded
  · cases decoded
  cases read : Storage.decodeFields ((bytes.drop head.keyHeaderBytes.toNat).take
      (bytesPerKey head fields - head.keyHeaderBytes.toNat)) fields 0 with
  | error err =>
      simp only [read, bind, Except.bind] at decoded
      cases decoded
  | ok values =>
      cases tail : Storage.readTailLength head valueSize (bytes.drop (bytesPerKey head fields)) with
      | error err =>
          simp only [read, tail, bind, Except.bind] at decoded
          cases decoded
      | ok pair =>
          simp only [read, tail, bind, Except.bind] at decoded
          split at decoded
          · cases decoded
          split at decoded
          · cases decoded
          · cases decoded
            exact (List.drop_suffix _ _).trans ((suffix pair tail).trans behind)

/-- The bytes left when some entries have been read. -/
inductive LeftAfter (shape : PackableKey κ) (head : SortedRunKeyFormat)
    (fields : List FieldFormat) (valuePrefix : List UInt8) (valueSize : Nat) :
    List UInt8 → Nat → List UInt8 → Prop
  | here (bytes : List UInt8) : LeftAfter shape head fields valuePrefix valueSize bytes 0 bytes
  | later (bytes rest left : List UInt8) (index : Nat) (entry : κ × List UInt8)
      (decoded : Storage.decodeEntry shape head fields valuePrefix valueSize bytes =
        .ok (entry, rest))
      (after : LeftAfter shape head fields valuePrefix valueSize rest index left) :
      LeftAfter shape head fields valuePrefix valueSize bytes (index + 1) left

/-- Every entry that is reached is safe. -/
def EntriesSafe (shape : PackableKey κ) (head : SortedRunKeyFormat) (fields : List FieldFormat)
    (valuePrefix : List UInt8) (valueSize : Nat) (entriesBytes bytes : List UInt8) (count : Nat) :
    Prop :=
  ∀ index rest, index < count →
    LeftAfter shape head fields valuePrefix valueSize bytes index rest →
    EntrySafe head fields valueSize entriesBytes rest

/-- The first entry is reached, and the others behind it. -/
theorem entries_safe_succ (shape : PackableKey κ) (head : SortedRunKeyFormat)
    (fields : List FieldFormat) (valuePrefix : List UInt8) (valueSize : Nat)
    (entriesBytes bytes : List UInt8) (count : Nat) :
    EntriesSafe shape head fields valuePrefix valueSize entriesBytes bytes (count + 1) ↔
      EntrySafe head fields valueSize entriesBytes bytes ∧
        ∀ entry rest, Storage.decodeEntry shape head fields valuePrefix valueSize bytes =
            .ok (entry, rest) →
          EntriesSafe shape head fields valuePrefix valueSize entriesBytes rest count := by
  constructor
  · intro all
    constructor
    · exact all 0 bytes (Nat.succ_pos count) (.here bytes)
    · intro entry rest decoded index left below after
      exact all (index + 1) left (Nat.succ_lt_succ below) (.later _ _ _ _ _ decoded after)
  · intro both index left below after
    cases after with
    | here => exact both.1
    | later _ rest _ index entry decoded after =>
        exact both.2 entry rest decoded index left (Nat.lt_of_succ_lt_succ below) after

private theorem decode_entries_meets (shape : PackableKey κ) (head : SortedRunKeyFormat)
    (fields : List FieldFormat) (valuePrefix : List UInt8) (valueSize : Nat)
    (entriesBytes : List UInt8) (short : entriesBytes.length < 2 ^ 63)
    (few : dataBitsPerKey fields ≤ 2 ^ 16)
    (size : head.valueSizeKind = ValueSizeKind.fixed.toU8 →
      head.commonValuePrefix.toNat ≤ valueSize) (count : Nat) :
    ∀ bytes, bytes <:+ entriesBytes →
      Checked.Meets (decodeEntries shape head fields valuePrefix valueSize entriesBytes count
          (at_ entriesBytes bytes))
        (EntriesSafe shape head fields valuePrefix valueSize entriesBytes bytes count)
        (Storage.decodeEntries shape head fields valuePrefix valueSize count bytes) := by
  induction count with
  | zero =>
      intro bytes _
      exact Checked.Meets.of_holds (fun index _ below => absurd below (Nat.not_lt_zero index)) rfl
  | succ count ih =>
      intro bytes left
      have first := decode_entry_meets shape head fields valuePrefix valueSize entriesBytes short
        few size bytes left
      rw [decodeEntries, Storage.decodeEntries, entries_safe_succ]
      cases decoded : Storage.decodeEntry shape head fields valuePrefix valueSize bytes with
      | error err =>
          rw [decoded] at first
          apply (first.bind _ (fun _ => True) (fun _ => .error err) fun value _ same => by
            cases same).congr
          · constructor
            · intro both
              refine ⟨both.1, fun _ _ same => ?_⟩
              cases same
            · intro both
              refine ⟨both.1, fun _ same => ?_⟩
              cases same
          · intro _
            rfl
      | ok found =>
          obtain ⟨entry, rest⟩ := found
          have behind := decode_entry_suffix shape head fields valuePrefix valueSize entriesBytes
            size bytes left _ decoded
          have later := (ih rest behind).map fun more => entry :: more
          rw [decoded] at first
          apply (first.bind _
            (fun _ => EntriesSafe shape head fields valuePrefix valueSize entriesBytes rest count)
            (fun _ => Storage.decodeEntries shape head fields valuePrefix valueSize count rest >>=
              fun more => .ok (entry :: more)) fun value _ same => by
                cases same
                exact later).congr
          · constructor
            · intro both
              refine ⟨both.1, fun _ _ same => ?_⟩
              cases same
              exact both.2 _ rfl
            · intro both
              exact ⟨both.1, fun _ _ => both.2 entry rest rfl⟩
          · intro _
            rfl

private theorem length_parse_fields (count : Nat) :
    ∀ bytes, (SortedRunKeyFormat.parseFields count bytes).length = count := by
  induction count with
  | zero =>
      intro bytes
      rfl
  | succ count ih =>
      intro bytes
      rw [SortedRunKeyFormat.parseFields, List.length_cons, ih]

theorem parse_fields_take (count : Nat) :
    ∀ bytes, SortedRunKeyFormat.parseFields count
        (bytes.take (count * FieldFormat.layout.size)) =
      SortedRunKeyFormat.parseFields count bytes := by
  induction count with
  | zero =>
      intro bytes
      rfl
  | succ count ih =>
      intro bytes
      have first : FieldFormat.layout.size ≤ (count + 1) * FieldFormat.layout.size := by
        rw [Nat.succ_mul]
        exact Nat.le_add_left _ _
      have rest : (count + 1) * FieldFormat.layout.size - FieldFormat.layout.size =
          count * FieldFormat.layout.size := by
        rw [Nat.succ_mul, Nat.add_sub_cancel]
      rw [SortedRunKeyFormat.parseFields, SortedRunKeyFormat.parseFields, List.take_take,
        Nat.min_eq_left first, List.drop_take, rest, ih]

private theorem bits_of_fields (fields : List FieldFormat) (few : fields.length ≤ 255) :
    dataBitsPerKey fields ≤ 2 ^ 16 := by
  have each (fields : List FieldFormat) : dataBitsPerKey fields ≤ fields.length * 255 := by
    induction fields with
    | nil => exact Nat.le_refl _
    | cons field fields ih =>
        have bound := field.bitWidth.toNat_lt
        rw [dataBitsPerKey, List.map_cons, List.sum_cons, ← dataBitsPerKey, List.length_cons]
        omega
  have total := each fields
  omega

private theorem parse_lift (bytes : List UInt8) :
    parse bytes = Checked.lift (SortedRunKeyFormat.parse bytes) := by
  have headSize : SortedRunKeyFormat.layout.size = 8 := rfl
  have fieldSize : FieldFormat.layout.size = 16 := rfl
  unfold parse SortedRunKeyFormat.parse
  by_cases none : bytes.length < SortedRunKeyFormat.layout.size
  · rw [if_pos none, if_pos none]
    rfl
  rw [if_neg none, if_neg none, Checked.slice_returns _ _ _ (Nat.zero_le _) (by omega),
    Checked.bind_returns, List.drop_zero, Nat.sub_zero]
  dsimp only
  generalize SortedRunKeyFormat.layout.ofBytes (bytes.take SortedRunKeyFormat.layout.size) = head
  have fieldsBound := head.nrFields.toNat_lt
  have prefixBound := head.commonValuePrefix.toNat_lt
  have ends : head.fieldsEnd = SortedRunKeyFormat.layout.size +
      head.nrFields.toNat * FieldFormat.layout.size := rfl
  have total : head.totalSize = head.fieldsEnd + head.commonValuePrefix.toNat := rfl
  have fieldsSize : head.nrFields.toNat * FieldFormat.layout.size = head.nrFields.toNat * 16 := by
    rw [fieldSize]
  rw [Checked.multiply_returns _ _ (by omega), Checked.bind_returns,
    Checked.add_returns _ _ (by omega), Checked.bind_returns, ← ends,
    Checked.add_returns _ _ (by omega), Checked.bind_returns, ← total]
  by_cases cut : bytes.length < head.totalSize
  · rw [if_pos cut, if_pos cut]
    rfl
  rw [if_neg cut, if_neg cut, Checked.slice_returns _ _ _ (by omega) (by omega),
    Checked.bind_returns, Checked.slice_returns _ _ _ (by omega) (by omega), Checked.bind_returns]
  have fieldsLength : head.fieldsEnd - SortedRunKeyFormat.layout.size =
      head.nrFields.toNat * FieldFormat.layout.size := by omega
  have prefixSize : head.totalSize - head.fieldsEnd = head.commonValuePrefix.toNat := by omega
  rw [fieldsLength, prefixSize, parse_fields_take]
  rfl

/-- The check of all entries overflows if their size is not a number of 64 bits. -/
theorem check_entries_meets (head : SortedRunKeyFormat) (fields : List FieldFormat)
    (valueSize entryCount : Nat) (entriesBytes : List UInt8)
    (few : dataBitsPerKey fields ≤ 2 ^ 16) (size : valueSize ≤ 2 ^ 32) :
    Checked.Meets (checkEntries head fields valueSize entryCount entriesBytes)
      (head.valueSizeKind = ValueSizeKind.fixed.toU8 →
        head.commonValuePrefix.toNat ≤ valueSize →
        entryCount * (bytesPerKey head fields + (valueSize - head.commonValuePrefix.toNat)) <
          2 ^ 64)
      (if head.valueSizeKind = ValueSizeKind.fixed.toU8 ∧
          valueSize < head.commonValuePrefix.toNat then
        .error (.invalidPrefix head.commonValuePrefix.toNat)
      else if head.valueSizeKind = ValueSizeKind.fixed.toU8 ∧ entriesBytes.length <
          entryCount * (bytesPerKey head fields + (valueSize - head.commonValuePrefix.toNat)) then
        .error (.malformed "decode: entries truncated")
      else if !knownKind head.valueSizeKind then
        .error (.malformed "decode: unknown value_size_kind")
      else .ok ()) := by
  have headerBound := head.keyHeaderBytes.toNat_lt
  have body : bytesPerKey head fields = head.keyHeaderBytes.toNat +
      (dataBitsPerKey fields + 7) / 8 := rfl
  unfold checkEntries
  by_cases fixed : head.valueSizeKind = ValueSizeKind.fixed.toU8
  · have known : knownKind head.valueSizeKind = true := by
      rw [fixed]
      rfl
    rw [if_pos fixed]
    by_cases small : valueSize < head.commonValuePrefix.toNat
    · rw [if_pos small, if_pos ⟨fixed, small⟩]
      exact Checked.Meets.of_holds (fun _ enough => absurd small (Nat.not_lt.mpr enough)) rfl
    rw [if_neg small, if_neg (fun both => small both.2), Checked.subtract_returns _ _ (by omega),
      Checked.bind_returns, Checked.add_returns _ _ (by omega), Checked.bind_returns]
    by_cases fits : entryCount * (bytesPerKey head fields +
        (valueSize - head.commonValuePrefix.toNat)) < 2 ^ 64
    · rw [Checked.multiply_returns _ _ fits, Checked.bind_returns]
      apply Checked.Meets.of_holds (fun _ _ => fits)
      by_cases cut : entriesBytes.length < entryCount * (bytesPerKey head fields +
          (valueSize - head.commonValuePrefix.toNat))
      · rw [if_pos cut, if_pos ⟨fixed, cut⟩]
        rfl
      · rw [if_neg cut, if_neg (fun both => cut both.2), known]
        rfl
    · rw [Checked.multiply, if_neg fits, Checked.bind_stops]
      exact Checked.Meets.of_stops _ fun all => fits (all fixed (by omega))
  · have first : ¬ (head.valueSizeKind = ValueSizeKind.fixed.toU8 ∧
        valueSize < head.commonValuePrefix.toNat) := fun both => fixed both.1
    have second : ¬ (head.valueSizeKind = ValueSizeKind.fixed.toU8 ∧ entriesBytes.length <
        entryCount * (bytesPerKey head fields + (valueSize - head.commonValuePrefix.toNat))) :=
      fun both => fixed both.1
    rw [if_neg fixed, if_neg first, if_neg second]
    apply Checked.Meets.of_holds (fun here => absurd here fixed)
    by_cases varint : head.valueSizeKind = ValueSizeKind.varint.toU8
    · have known : knownKind head.valueSizeKind = true := by
        rw [varint]
        rfl
      rw [if_pos varint, known]
      rfl
    · have unknown : knownKind head.valueSizeKind = false := by
        rw [knownKind, decide_eq_false fixed, decide_eq_false varint]
        rfl
      rw [if_neg varint, unknown]
      rfl

/-- What a payload must hold for its decoder not to stop: under a descriptor that is accepted, the
size of all entries of one length is a number of 64 bits, and the entries that are reached are
safe. -/
def DecodeSafe (shape : PackableKey κ) (payload : List UInt8) (valueSize entryCount : Nat) : Prop :=
  ∀ head fields valuePrefix, SortedRunKeyFormat.parse payload = .ok (head, fields, valuePrefix) →
    head.nrFields.toNat = shape.nrFields → knownKind head.valueSizeKind = true →
    (head.valueSizeKind = ValueSizeKind.fixed.toU8 → head.commonValuePrefix.toNat ≤ valueSize →
      entryCount * (bytesPerKey head fields + (valueSize - head.commonValuePrefix.toNat)) <
        2 ^ 64) ∧
    ((head.valueSizeKind = ValueSizeKind.fixed.toU8 → head.commonValuePrefix.toNat ≤ valueSize ∧
        entryCount * (bytesPerKey head fields + (valueSize - head.commonValuePrefix.toNat)) ≤
          (payload.drop head.totalSize).length) →
      EntriesSafe shape head fields valuePrefix valueSize (payload.drop head.totalSize)
        (payload.drop head.totalSize) entryCount)

/-- When the check of all entries passes. -/
theorem checked_entries_ok (head : SortedRunKeyFormat) (valueSize needed available : Nat) :
    (if head.valueSizeKind = ValueSizeKind.fixed.toU8 ∧
          valueSize < head.commonValuePrefix.toNat then
        (.error (.invalidPrefix head.commonValuePrefix.toNat) : Except PackError Unit)
      else if head.valueSizeKind = ValueSizeKind.fixed.toU8 ∧ available < needed then
        .error (.malformed "decode: entries truncated")
      else if !knownKind head.valueSizeKind then
        .error (.malformed "decode: unknown value_size_kind")
      else .ok ()) = .ok () ↔
      knownKind head.valueSizeKind = true ∧
        (head.valueSizeKind = ValueSizeKind.fixed.toU8 →
          head.commonValuePrefix.toNat ≤ valueSize ∧ needed ≤ available) := by
  split
  · next small =>
      constructor
      · intro never
        cases never
      · intro both
        exact absurd (both.2 small.1).1 (Nat.not_le.mpr small.2)
  next roomy =>
  split
  · next cut =>
      constructor
      · intro never
        cases never
      · intro both
        exact absurd (both.2 cut.1).2 (Nat.not_le.mpr cut.2)
  next enough =>
  have room : head.valueSizeKind = ValueSizeKind.fixed.toU8 →
      head.commonValuePrefix.toNat ≤ valueSize ∧ needed ≤ available := fun fixed =>
    ⟨Nat.not_lt.mp fun small => roomy ⟨fixed, small⟩,
      Nat.not_lt.mp fun cut => enough ⟨fixed, cut⟩⟩
  cases knownKind head.valueSizeKind with
  | true => exact ⟨fun _ => ⟨rfl, room⟩, fun _ => rfl⟩
  | false =>
      constructor
      · intro never
        cases never
      · intro both
        cases both.1

private theorem parse_ok (bytes : List UInt8) (head : SortedRunKeyFormat)
    (fields : List FieldFormat)
    (valuePrefix : List UInt8)
    (parsed : SortedRunKeyFormat.parse bytes = .ok (head, fields, valuePrefix)) :
    head.totalSize ≤ bytes.length ∧ fields.length ≤ 255 ∧
      valuePrefix.length = head.commonValuePrefix.toNat := by
  unfold SortedRunKeyFormat.parse at parsed
  split at parsed
  · cases parsed
  dsimp only at parsed
  split at parsed
  · cases parsed
  next long =>
  cases parsed
  have total : (SortedRunKeyFormat.layout.ofBytes
      (bytes.take SortedRunKeyFormat.layout.size)).totalSize =
        (SortedRunKeyFormat.layout.ofBytes
          (bytes.take SortedRunKeyFormat.layout.size)).fieldsEnd +
        (SortedRunKeyFormat.layout.ofBytes
          (bytes.take SortedRunKeyFormat.layout.size)).commonValuePrefix.toNat := rfl
  refine ⟨Nat.not_lt.mp long, ?_, ?_⟩
  · rw [length_parse_fields]
    exact Nat.le_of_lt_succ (UInt8.toNat_lt _)
  · rw [List.length_take, List.length_drop]
    omega

/-- The decoder stops exactly at the payloads that are not safe, and decodes the others. -/
theorem decode_packed_run_meets (shape : PackableKey κ) (payload : List UInt8) (valueSize : Nat)
    (entryCount : UInt32) (short : payload.length < 2 ^ 63) (size : valueSize ≤ 2 ^ 32) :
    Checked.Meets (decodePackedRun shape payload valueSize entryCount)
      (DecodeSafe shape payload valueSize entryCount.toNat)
      (Storage.decodePackedRun shape payload valueSize entryCount.toNat) := by
  unfold decodePackedRun Storage.decodePackedRun DecodeSafe
  rw [parse_lift]
  cases parsed : SortedRunKeyFormat.parse payload with
  | error err =>
      apply Checked.Meets.of_holds
      · intro head fields valuePrefix same
        cases same
      · rfl
  | ok found =>
      obtain ⟨head, fields, valuePrefix⟩ := found
      obtain ⟨total, few, length⟩ := parse_ok payload head fields valuePrefix parsed
      rw [Checked.lift]
      dsimp only
      by_cases number : head.nrFields.toNat = shape.nrFields
      case neg =>
        rw [if_pos number, if_pos number]
        apply Checked.Meets.of_holds
        · intro other _ _ same equal
          cases same
          exact absurd equal number
        · rfl
      have entriesLength : (payload.drop head.totalSize).length < 2 ^ 63 := by
        rw [List.length_drop]
        omega
      have whole : (payload.drop head.totalSize).take (payload.length - head.totalSize) =
          payload.drop head.totalSize := by
        rw [← List.length_drop]
        exact List.take_length
      have check := check_entries_meets head fields valueSize entryCount.toNat
        (payload.drop head.totalSize) (bits_of_fields fields few) size
      rw [if_neg (by simp [number]), if_neg (by simp [number]), Checked.assert,
        if_pos (decide_eq_true length), Checked.bind_returns,
        Checked.slice_returns _ _ _ total (Nat.le_refl _), Checked.bind_returns, whole]
      have decoded (room : head.valueSizeKind = ValueSizeKind.fixed.toU8 →
          head.commonValuePrefix.toNat ≤ valueSize) :=
        (decode_entries_meets shape head fields valuePrefix valueSize
          (payload.drop head.totalSize) entriesLength (bits_of_fields fields few) room
          entryCount.toNat (payload.drop head.totalSize) (List.suffix_refl _)).map
          fun entries => (entries, head, fields)
      have start : at_ (payload.drop head.totalSize) (payload.drop head.totalSize) = 0 :=
        Nat.sub_self _
      rw [start] at decoded
      have passed := checked_entries_ok head valueSize
        (entryCount.toNat *
          (bytesPerKey head fields + (valueSize - head.commonValuePrefix.toNat)))
        (payload.drop head.totalSize).length
      have known : head.valueSizeKind = ValueSizeKind.fixed.toU8 →
          knownKind head.valueSizeKind = true := by
        intro fixed
        rw [fixed]
        rfl
      apply (check.bind
        (fun _ => decodeEntries shape head fields valuePrefix valueSize
          (payload.drop head.totalSize) entryCount.toNat 0 >>= fun entries =>
            .returns (entries, head, fields))
        (fun _ => EntriesSafe shape head fields valuePrefix valueSize
          (payload.drop head.totalSize) (payload.drop head.totalSize) entryCount.toNat)
        (fun _ => Storage.decodeEntries shape head fields valuePrefix valueSize entryCount.toNat
          (payload.drop head.totalSize) >>= fun entries => .ok (entries, head, fields))
        fun value _ same => decoded fun fixed => ((passed.mp same).2 fixed).1).congr
      · constructor
        · intro both other otherFields otherPrefix same _ kind
          cases same
          exact ⟨both.1, fun room => both.2 () (passed.mpr ⟨kind, room⟩)⟩
        · intro all
          constructor
          · intro fixed enough
            exact (all head fields valuePrefix rfl number (known fixed)).1 fixed enough
          · intro value same
            have both := passed.mp same
            exact (all head fields valuePrefix rfl number both.1).2 both.2
      · intro _
        split
        · rfl
        · split
          · rfl
          · split
            · rfl
            · rfl

/-- The decoder returns or fails exactly on the safe payloads, with what the decoder of lists of
bytes says. The bound on the payload is that of a slice in memory. -/
theorem decoding_returns_iff (shape : PackableKey κ) (payload : List UInt8) (valueSize : Nat)
    (entryCount : UInt32) (short : payload.length < 2 ^ 63) (size : valueSize ≤ 2 ^ 32) :
    ((∃ result, decodePackedRun shape payload valueSize entryCount = Checked.lift result) ↔
        DecodeSafe shape payload valueSize entryCount.toNat) ∧
      (DecodeSafe shape payload valueSize entryCount.toNat →
        decodePackedRun shape payload valueSize entryCount =
          Checked.lift (Storage.decodePackedRun shape payload valueSize entryCount.toNat)) := by
  have meets := decode_packed_run_meets shape payload valueSize entryCount short size
  constructor
  · rw [Checked.lifts_iff]
    exact meets.stops_iff
  · exact meets.result

/-- Two entries of a constant key. -/
theorem decoding_returns_constant :
    ((∃ result, decodePackedRun PackableKey.u64
          ([1, 0, 0, 0, 0, 0, 0, 0] ++ List.replicate 16 0 ++ [7, 8]) 1 2 =
        Checked.lift result) ↔
      DecodeSafe PackableKey.u64 ([1, 0, 0, 0, 0, 0, 0, 0] ++ List.replicate 16 0 ++ [7, 8]) 1 2) ∧
    (DecodeSafe PackableKey.u64 ([1, 0, 0, 0, 0, 0, 0, 0] ++ List.replicate 16 0 ++ [7, 8]) 1 2 →
      decodePackedRun PackableKey.u64
          ([1, 0, 0, 0, 0, 0, 0, 0] ++ List.replicate 16 0 ++ [7, 8]) 1 2 =
        Checked.lift (Storage.decodePackedRun PackableKey.u64
          ([1, 0, 0, 0, 0, 0, 0, 0] ++ List.replicate 16 0 ++ [7, 8]) 1 2)) :=
  decoding_returns_iff PackableKey.u64
    ([1, 0, 0, 0, 0, 0, 0, 0] ++ List.replicate 16 0 ++ [7, 8]) 1 2 (by decide) (by decide)

/-- A key header of five bytes, a tail of 2^64 - 1 bytes, a field of 65 bits, and entries of more
than 2^64 bytes. -/
theorem decoding_stops :
    decodePackedRun PackableKey.u64
        ([1, 5, 0, 0, 0, 0, 0, 0] ++ List.replicate 16 0 ++ [1, 2, 3, 4, 5]) 0 1 =
      .stops .shift ∧
    decodePackedRun PackableKey.u64
        ([1, 0, 0, 1, 0, 0, 0, 0] ++ List.replicate 16 0 ++ List.replicate 9 255 ++ [1]) 0 1 =
      .stops .overflow ∧
    decodePackedRun PackableKey.u64
        ([1, 0, 0, 0, 65, 0, 0, 0, 65] ++ List.replicate 15 0 ++ List.replicate 9 0) 0 1 =
      .stops .assertion ∧
    decodePackedRun PackableKey.u64 ([1, 2, 0, 0, 0, 0, 0, 0] ++ List.replicate 16 0) (2 ^ 32)
        (UInt32.ofNat (2 ^ 32 - 1)) = .stops .overflow := by
  refine ⟨?_, ?_, ?_, ?_⟩
  · decide +kernel
  · decide +kernel
  · decide +kernel
  · decide +kernel

end Cursor

end Mimisbrunnr.Storage
