import Mathlib.Data.List.Basic
import Mathlib.Tactic.IntervalCases

/-!
# Text as bytes and numbers as text

Text is read byte by byte in many scanners. A byte below 128 is a character of
its own; every byte of a wider character is at least 128, so a scanner that
stops at ASCII bytes never stops inside a character. Reading each byte as the
character with its number gives back the text only if all of it is ASCII.

Numerals are written by `Nat.toDigits` and read by `numeral`.
-/

namespace Mimisbrunnr.Lib.Text

set_option autoImplicit false

def encode (chars : List Char) : List UInt8 := chars.flatMap String.utf8EncodeChar

def decode (bytes : List UInt8) : Option (List Char) :=
  bytes.toByteArray.utf8Decode?.map Array.toList

theorem decode_encode (chars : List Char) : decode (encode chars) = some chars := by
  have decoded := List.utf8Decode?_utf8Encode (l := chars)
  rw [List.utf8Encode] at decoded
  rw [decode, encode, decoded]
  rfl

theorem encode_of_decode (bytes : List UInt8) (chars : List Char)
    (decoded : decode bytes = some chars) : encode chars = bytes := by
  obtain ⟨found, here, same⟩ := Option.map_eq_some_iff.mp decoded
  have present : bytes.toByteArray.utf8Decode?.isSome := by rw [here]; rfl
  obtain ⟨valid, encoded⟩ := ByteArray.isSome_utf8Decode?_iff.mp present
  rw [encoded, List.utf8Decode?_utf8Encode, Option.some.injEq] at here
  rw [← same, ← here, List.toList_toArray]
  have bytes_ := congrArg (fun array : ByteArray => array.data.toList) encoded
  rw [List.utf8Encode] at bytes_
  simpa [encode] using bytes_.symm

theorem encode_append (left right : List Char) :
    encode (left ++ right) = encode left ++ encode right := List.flatMap_append

theorem encode_cons (char : Char) (rest : List Char) :
    encode (char :: rest) = String.utf8EncodeChar char ++ encode rest := List.flatMap_cons

def isAscii (char : Char) : Bool := char.utf8Size = 1

theorem ascii_iff (char : Char) : isAscii char = true ↔ char.toNat < 128 := by
  rw [isAscii, decide_eq_true_eq, Char.utf8Size_eq_one_iff, UInt32.le_iff_toNat_le]
  exact Nat.lt_succ_iff.symm

theorem encode_ascii (char : Char) (ascii : isAscii char = true) :
    String.utf8EncodeChar char = [UInt8.ofNat char.toNat] := by
  have small := (ascii_iff char).mp ascii
  rw [String.utf8EncodeChar]
  exact if_pos (Nat.le_of_lt_succ small)

theorem high_byte (number : Nat) (low : 128 ≤ number) (high : number < 256) :
    128 ≤ (UInt8.ofNat number).toNat := by
  rw [UInt8.toNat_ofNat', Nat.mod_eq_of_lt high]
  exact low

theorem encode_wide (char : Char) (wide : isAscii char = false) (byte : UInt8)
    (member : byte ∈ String.utf8EncodeChar char) : 128 ≤ byte.toNat := by
  have big : ¬ char.val.toNat ≤ 0x7f := by
    intro small
    rw [(ascii_iff char).mpr (Nat.lt_succ_of_le small)] at wide
    cases wide
  rw [String.utf8EncodeChar, if_neg big] at member
  split at member
  · simp only [List.mem_cons, List.not_mem_nil, or_false] at member
    rcases member with rfl | rfl
    · exact high_byte _ (by omega) (by omega)
    · exact high_byte _ (by omega) (by omega)
  · split at member
    · simp only [List.mem_cons, List.not_mem_nil, or_false] at member
      rcases member with rfl | rfl | rfl
      · exact high_byte _ (by omega) (by omega)
      · exact high_byte _ (by omega) (by omega)
      · exact high_byte _ (by omega) (by omega)
    · simp only [List.mem_cons, List.not_mem_nil, or_false] at member
      rcases member with rfl | rfl | rfl | rfl
      · exact high_byte _ (by omega) (by omega)
      · exact high_byte _ (by omega) (by omega)
      · exact high_byte _ (by omega) (by omega)
      · exact high_byte _ (by omega) (by omega)

/-- A test that holds of every wide byte and of the ASCII characters of a text holds of
all its bytes. -/
theorem encode_all (test : UInt8 → Bool) (chars : List Char)
    (wide : ∀ byte : UInt8, 128 ≤ byte.toNat → test byte = true)
    (narrow : ∀ char ∈ chars, isAscii char = true → test (UInt8.ofNat char.toNat) = true) :
    ∀ byte ∈ encode chars, test byte = true := by
  intro byte member
  obtain ⟨char, inside, here⟩ := List.mem_flatMap.mp member
  rcases kind : isAscii char with _ | _
  · exact wide byte (encode_wide char kind byte here)
  · rw [encode_ascii char kind, List.mem_singleton] at here
    rw [here]
    exact narrow char inside kind

def byteChar (byte : UInt8) : Char := Char.ofNat byte.toNat

theorem byte_char_ascii (char : Char) (ascii : isAscii char = true) :
    byteChar (UInt8.ofNat char.toNat) = char := by
  have small := (ascii_iff char).mp ascii
  rw [byteChar, UInt8.toNat_ofNat', Nat.mod_eq_of_lt (Nat.lt_trans small (by decide))]
  exact Char.ofNat_toNat char

theorem encode_injective : Function.Injective encode := by
  intro left right same
  have decoded := congrArg decode same
  rw [decode_encode, decode_encode] at decoded
  exact Option.some.inj decoded

theorem split_after (separator : UInt8) (front back : List UInt8) (absent : separator ∉ front) :
    (front ++ back).splitOn separator = (back.splitOn separator).modifyHead (front ++ ·) := by
  induction front with
  | nil => exact (congrFun List.modifyHead_id _).symm
  | cons byte front ih =>
      rw [List.mem_cons, not_or] at absent
      have other : ¬ (byte == separator) = true := fun same => absent.1 (eq_of_beq same).symm
      rw [List.cons_append, List.splitOn_cons_eq_if_modifyHead, if_neg other, ih absent.2,
        List.modifyHead_modifyHead]
      rfl

theorem byte_of_other (separator char : Char) (ascii : isAscii separator = true)
    (different : char ≠ separator) :
    UInt8.ofNat separator.toNat ∉ String.utf8EncodeChar char := by
  have small := (ascii_iff separator).mp ascii
  have value : (UInt8.ofNat separator.toNat).toNat = separator.toNat := by
    rw [UInt8.toNat_ofNat']
    exact Nat.mod_eq_of_lt (by omega)
  intro member
  cases kind : isAscii char with
  | false =>
      have wide := encode_wide char kind _ member
      omega
  | true =>
      rw [encode_ascii char kind, List.mem_singleton] at member
      apply different
      rw [← byte_char_ascii char kind, ← byte_char_ascii separator ascii, member]

theorem split_encode (separator : Char) (ascii : isAscii separator = true) (chars : List Char) :
    (encode chars).splitOn (UInt8.ofNat separator.toNat) =
      (chars.splitOn separator).map encode := by
  induction chars with
  | nil => rfl
  | cons char rest ih =>
      rw [encode_cons, List.splitOn_cons_eq_if_modifyHead]
      by_cases same : char = separator
      · rw [if_pos (beq_iff_eq.mpr same), same, encode_ascii separator ascii,
          List.singleton_append, List.splitOn_cons_eq_if_modifyHead, if_pos BEq.rfl, ih]
        rfl
      · rw [if_neg (fun equal => same (eq_of_beq equal)),
          split_after _ _ _ (byte_of_other separator char ascii same), ih]
        cases rest.splitOn separator with
        | nil => rfl
        | cons first others =>
            simp only [List.map_cons, List.modifyHead_cons, encode_cons]

def bytewise (chars : List Char) : List Char := (encode chars).map byteChar

theorem bytewise_cons (char : Char) (rest : List Char) :
    bytewise (char :: rest) = (String.utf8EncodeChar char).map byteChar ++ bytewise rest := by
  rw [bytewise, encode_cons, List.map_append]
  rfl

theorem length_bytewise (chars : List Char) : chars.length ≤ (bytewise chars).length := by
  induction chars with
  | nil => exact Nat.le_refl 0
  | cons char rest ih =>
      have positive := char.utf8Size_pos
      rw [bytewise_cons, List.length_append, List.length_map, String.length_utf8EncodeChar,
        List.length_cons]
      omega

theorem bytewise_eq_iff (chars : List Char) :
    bytewise chars = chars ↔ chars.all isAscii = true := by
  induction chars with
  | nil => simp [bytewise, encode]
  | cons char rest ih =>
      rw [bytewise_cons, List.all_cons, Bool.and_eq_true, ← ih]
      rcases kind : isAscii char with _ | _
      · have wide : char.utf8Size ≠ 1 := by simpa [isAscii] using kind
        have positive := char.utf8Size_pos
        have longer := length_bytewise rest
        simp only [Bool.false_eq_true, false_and, iff_false]
        intro same
        have lengths := congrArg List.length same
        rw [List.length_append, List.length_map, String.length_utf8EncodeChar,
          List.length_cons] at lengths
        omega
      · rw [encode_ascii char kind]
        simp [byte_char_ascii char kind]

/-- The value of a digit or letter, upper or lower case. -/
def alphanumeric (char : Char) : Option Nat :=
  if '0' ≤ char ∧ char ≤ '9' then some (char.toNat - 48)
  else if 'a' ≤ char ∧ char ≤ 'z' then some (char.toNat - 87)
  else if 'A' ≤ char ∧ char ≤ 'Z' then some (char.toNat - 55)
  else none

def digitValue (radix : Nat) (char : Char) : Option Nat :=
  (alphanumeric char).filter (· < radix)

def numeral (radix : Nat) (digits : List Char) : Option Nat :=
  digits.foldlM (fun number char => (digitValue radix char).map (number * radix + ·)) 0

/-- A number of at least one digit below the bound, after an optional plus sign. -/
def parseUnsigned (radix bound : Nat) (text : List Char) : Option Nat :=
  let digits := if text.head? = some '+' then text.drop 1 else text
  if digits = [] then none else (numeral radix digits).filter (· < bound)

theorem alphanumeric_digit_char (digit : Nat) (hex : digit < 16) :
    alphanumeric digit.digitChar = some digit := by
  interval_cases digit <;> decide

theorem digit_value_digit_char (radix digit : Nat) (small : digit < radix) (hex : radix ≤ 16) :
    digitValue radix digit.digitChar = some digit := by
  rw [digitValue, alphanumeric_digit_char digit (by omega)]
  simp [small]

theorem numeral_to_digits (radix number : Nat) (base : 1 < radix) (hex : radix ≤ 16) :
    numeral radix (Nat.toDigits radix number) = some number := by
  induction number using Nat.strong_induction_on with
  | _ number ih =>
      rw [Nat.toDigits_eq_if base]
      split
      · next small => simp [numeral, digit_value_digit_char radix number small hex]
      · next big =>
          have earlier := ih (number / radix) (Nat.div_lt_self (by omega) base)
          have last := digit_value_digit_char radix (number % radix) (Nat.mod_lt _ (by omega)) hex
          rw [numeral] at earlier ⊢
          rw [List.foldlM_append, earlier]
          simp [last, Nat.div_add_mod']

theorem digit_of_to_digits (radix number : Nat) (base : 1 < radix) (hex : radix ≤ 16) (char : Char)
    (member : char ∈ Nat.toDigits radix number) : ∃ digit < 16, char = Nat.digitChar digit := by
  induction number using Nat.strong_induction_on with
  | _ number ih =>
      rw [Nat.toDigits_eq_if base] at member
      split at member
      · next small => exact ⟨number, by omega, List.mem_singleton.mp member⟩
      · next big =>
          rcases List.mem_append.mp member with earlier | last
          · exact ih (number / radix) (Nat.div_lt_self (by omega) base) earlier
          · exact ⟨number % radix, Nat.lt_of_lt_of_le (Nat.mod_lt _ (by omega)) hex,
              List.mem_singleton.mp last⟩

theorem sign_not_head (radix number : Nat) (base : 1 < radix) (hex : radix ≤ 16) (sign : Char)
    (isSign : alphanumeric sign = none) : (Nat.toDigits radix number).head? ≠ some sign := by
  intro lead
  obtain ⟨digit, below, rfl⟩ :=
    digit_of_to_digits radix number base hex sign (List.mem_of_mem_head? lead)
  rw [alphanumeric_digit_char digit below] at isSign
  cases isSign

theorem parse_unsigned_to_digits (radix bound number : Nat) (base : 1 < radix) (hex : radix ≤ 16)
    (small : number < bound) :
    parseUnsigned radix bound (Nat.toDigits radix number) = some number := by
  have noSign : (Nat.toDigits radix number).head? ≠ some '+' :=
    sign_not_head radix number base hex '+' (by decide)
  rw [parseUnsigned]
  simp only [noSign, if_false, Nat.toDigits_ne_nil, numeral_to_digits radix number base hex]
  simp [small]

/-- A 64-bit number of at least one digit, after an optional sign. -/
def parseI64 (text : List Char) : Option Int64 :=
  let negative : Bool := text.head? = some '-'
  let digits := if text.head? = some '-' ∨ text.head? = some '+' then text.drop 1 else text
  if digits = [] then none
  else
    (numeral 10 digits).bind fun number =>
      if negative then if number ≤ 2 ^ 63 then some (Int64.ofInt (-(number : Int))) else none
      else if number < 2 ^ 63 then some (Int64.ofInt number) else none

def showI64 (number : Int64) : List Char :=
  if number.toInt < 0 then '-' :: Nat.toDigits 10 number.toInt.natAbs
  else Nat.toDigits 10 number.toInt.natAbs

theorem parse_show_i64 (number : Int64) : parseI64 (showI64 number) = some number := by
  have low := number.le_toInt
  have high := number.toInt_lt
  have digits := numeral_to_digits 10 number.toInt.natAbs (by decide) (by decide)
  rw [showI64]
  split
  · next negative =>
      have bound : number.toInt.natAbs ≤ 2 ^ 63 := by omega
      have back : -(number.toInt.natAbs : Int) = number.toInt := by omega
      simp only [parseI64, List.head?_cons, true_or, if_true, List.drop_succ_cons, List.drop_zero,
        Nat.toDigits_ne_nil, if_false, digits, Option.bind_some, decide_true, bound, back,
        Int64.ofInt_toInt]
  · next positive =>
      have bound : number.toInt.natAbs < 2 ^ 63 := by omega
      have back : (number.toInt.natAbs : Int) = number.toInt := by omega
      have noMinus : (Nat.toDigits 10 number.toInt.natAbs).head? ≠ some '-' :=
        sign_not_head 10 _ (by decide) (by decide) '-' (by decide)
      have noPlus : (Nat.toDigits 10 number.toInt.natAbs).head? ≠ some '+' :=
        sign_not_head 10 _ (by decide) (by decide) '+' (by decide)
      simp only [parseI64, noMinus, noPlus, or_self, if_false, Nat.toDigits_ne_nil, digits,
        Option.bind_some, decide_false, Bool.false_eq_true, bound, if_true, back,
        Int64.ofInt_toInt]

end Mimisbrunnr.Lib.Text
