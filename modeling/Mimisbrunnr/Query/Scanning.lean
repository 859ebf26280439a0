import Mimisbrunnr.Query.Parser

/-!
# The tokens of printed queries

The tokenizer splits a printed query into `tokensOf`, piece by piece: a piece is
read as its tokens whenever the byte behind it ends a word. A name that is empty
leaves no token, and a text comes back as its bytes.
-/

namespace Mimisbrunnr.Query

set_option autoImplicit false

open Mimisbrunnr.Lib.Text
open Mimisbrunnr.Types

def Delimited (bytes : List UInt8) : Prop := ∀ byte ∈ bytes.head?, isWordByte byte = false

/-- Characters that are read as tokens, whatever comes behind them. -/
def Scans (tokens : List Token) (chars : List Char) : Prop :=
  ∀ position rest, Delimited rest → ∃ next,
    tokenizeAt position (encode chars ++ rest) = (tokenizeAt next rest).map (tokens ++ ·)

def isMark (char : Char) : Bool := char = ' ' || char = '(' || char = ')'

def StartsWithMark (chars : List Char) : Prop := ∀ char ∈ chars.head?, isMark char = true

private theorem delimited_of_mark (chars : List Char) (rest : List UInt8)
    (marked : StartsWithMark chars)
    (delimited : Delimited rest) : Delimited (encode chars ++ rest) := by
  cases chars with
  | nil => exact delimited
  | cons char later =>
      have mark : isMark char = true := marked char rfl
      have shape : char = ' ' ∨ char = '(' ∨ char = ')' := by
        simpa [isMark, or_assoc] using mark
      rcases shape with rfl | rfl | rfl
      · rintro byte ⟨⟩
        decide
      · rintro byte ⟨⟩
        decide
      · rintro byte ⟨⟩
        decide

theorem map_append_append (result : Except QueryError (List Token)) (first second : List Token) :
    (result.map (second ++ ·)).map (first ++ ·) = result.map (first ++ second ++ ·) := by
  cases result with
  | error err => rfl
  | ok tokens => simp [Except.map]

theorem Scans.nil : Scans [] [] := by
  intro position rest _
  refine ⟨position, ?_⟩
  rw [show encode [] ++ rest = rest from rfl]
  cases tokenizeAt position rest with
  | error err => rfl
  | ok tokens => rfl

theorem Scans.append {first second : List Token} {left right : List Char}
    (leftScans : Scans first left) (rightScans : Scans second right)
    (marked : StartsWithMark right) : Scans (first ++ second) (left ++ right) := by
  intro position rest delimited
  obtain ⟨middle, before⟩ :=
    leftScans position (encode right ++ rest) (delimited_of_mark right rest marked delimited)
  obtain ⟨next, after⟩ := rightScans middle rest delimited
  refine ⟨next, ?_⟩
  rw [encode_append, List.append_assoc, before, after, map_append_append]

theorem Scans.space {tokens : List Token} {chars : List Char} (scans : Scans tokens chars) :
    Scans tokens (' ' :: chars) := by
  intro position rest delimited
  obtain ⟨next, scanned⟩ := scans (position + 1) rest delimited
  refine ⟨next, ?_⟩
  rw [← scanned, show encode (' ' :: chars) ++ rest = 0x20 :: (encode chars ++ rest) from rfl,
    tokenizeAt, if_pos (by decide)]

private theorem Scans.open_ {tokens : List Token} {chars : List Char} (scans : Scans tokens chars) :
    Scans (.lParen :: tokens) ('(' :: chars) := by
  intro position rest delimited
  obtain ⟨next, scanned⟩ := scans (position + 1) rest delimited
  refine ⟨next, ?_⟩
  rw [show encode ('(' :: chars) ++ rest = openParen :: (encode chars ++ rest) from rfl,
    tokenizeAt, if_neg (by decide), if_pos rfl, scanned]
  exact map_append_append _ [.lParen] tokens

private theorem Scans.close : Scans [.rParen] [')'] := by
  intro position rest _
  refine ⟨position + 1, ?_⟩
  rw [show encode [')'] ++ rest = closeParen :: rest from rfl, tokenizeAt, if_neg (by decide),
    if_neg (by decide), if_pos rfl]
  rfl

def isNameChar (char : Char) : Bool :=
  char ≠ ' ' && char ≠ '\t' && char ≠ '\n' && char ≠ '\x0c' && char ≠ '\r' &&
    char ≠ '(' && char ≠ ')' && char ≠ '"'

private theorem wide_is_word_byte (byte : UInt8) (wide : 128 ≤ byte.toNat) :
    isWordByte byte = true := by
  have other (small : UInt8) (below : small.toNat < 128) : byte ≠ small := by
    rintro rfl
    omega
  simp [isWordByte, isAsciiWhitespace, openParen, closeParen, quote, other]

private theorem name_byte_is_word_byte (byte : UInt8) (named : isNameChar (byteChar byte) = true) :
    isWordByte byte = true := by
  by_contra ends
  have shape : byte = 0x28 ∨ byte = 0x29 ∨ (byte = 0x20 ∨ byte = 0x09 ∨ byte = 0x0A ∨
      byte = 0x0C ∨ byte = 0x0D) ∨ byte = 0x22 := by
    by_contra other
    simp only [not_or] at other
    exact ends (by simp [isWordByte, isAsciiWhitespace, openParen, closeParen, quote, other])
  rcases shape with rfl | rfl | (rfl | rfl | rfl | rfl | rfl) | rfl
  all_goals exact absurd named (by decide)

private theorem name_is_word_bytes (chars : List Char)
    (plain : ∀ char ∈ chars, isNameChar char = true) :
    ∀ byte ∈ encode chars, isWordByte byte = true := by
  refine encode_all isWordByte chars wide_is_word_byte fun char member ascii => ?_
  refine name_byte_is_word_byte _ ?_
  rw [byte_char_ascii char ascii]
  exact plain char member

private theorem take_while_delimited (bytes rest : List UInt8)
    (inside : ∀ byte ∈ bytes, isWordByte byte = true) (delimited : Delimited rest) :
    (bytes ++ rest).takeWhile isWordByte = bytes := by
  rw [List.takeWhile_append_of_pos inside]
  cases rest with
  | nil => simp
  | cons byte later => simp [delimited byte rfl]

theorem encode_ne_nil (chars : List Char) (some_ : chars ≠ []) : encode chars ≠ [] := by
  intro empty
  have decoded := decode_encode chars
  rw [empty] at decoded
  exact some_ (Option.some.inj decoded).symm

theorem head_char_of_byte (chars : List Char) (byte : UInt8) (later : List UInt8)
    (shape : encode chars = byte :: later) (small : byte.toNat < 128) :
    chars.head? = some (byteChar byte) := by
  cases chars with
  | nil => cases shape
  | cons char rest =>
      rw [encode_cons] at shape
      rcases kind : isAscii char with _ | _
      · obtain ⟨first, others, bytes⟩ := List.exists_cons_of_ne_nil
          (List.ne_nil_of_length_pos (by rw [String.length_utf8EncodeChar]; exact char.utf8Size_pos))
        have wide := encode_wide char kind first (by rw [bytes]; exact List.mem_cons_self)
        rw [bytes, List.cons_append] at shape
        rw [(List.cons.inj shape).1] at wide
        omega
      · rw [encode_ascii char kind, List.singleton_append] at shape
        rw [← (List.cons.inj shape).1, byte_char_ascii char kind]
        rfl

/-- The first byte of a word is none of those that begin another token. -/
theorem tokenize_word (position : Nat) (chars : List Char) (rest : List UInt8) (token : Token)
    (some_ : chars ≠ []) (plain : ∀ char ∈ chars, isNameChar char = true)
    (noAt : chars.head? ≠ some '@') (delimited : Delimited rest)
    (read : wordToken position (encode chars) = .ok token) :
    tokenizeAt position (encode chars ++ rest) =
      (tokenizeAt (position + (encode chars).length) rest).map (token :: ·) := by
  have inside := name_is_word_bytes chars plain
  have taken := take_while_delimited (encode chars) rest inside delimited
  obtain ⟨byte, later, shape⟩ := List.exists_cons_of_ne_nil (encode_ne_nil chars some_)
  have word : isWordByte byte = true := inside byte (by simp [shape])
  have marks : byte ≠ openParen ∧ byte ≠ closeParen ∧ isAsciiWhitespace byte = false ∧
      byte ≠ quote := by
    simpa [isWordByte, and_assoc] using word
  have notAt : byte ≠ atSign := by
    rintro rfl
    exact noAt (head_char_of_byte chars atSign later shape (by decide))
  rw [shape] at taken read ⊢
  rw [List.cons_append] at taken ⊢
  rw [tokenizeAt]
  simp only [marks, notAt, taken, read, if_false, Bool.false_eq_true, reduceCtorEq, dite_false]
  rw [← List.cons_append, List.drop_left]

theorem Scans.word (chars : List Char) (some_ : chars ≠ [])
    (plain : ∀ char ∈ chars, isNameChar char = true) (noAt : chars.head? ≠ some '@')
    (noObj : "obj:".toList.isPrefixOf chars = false) : Scans [.word (String.ofList chars)] chars := by
  intro position rest delimited
  refine ⟨position + (encode chars).length, ?_⟩
  refine tokenize_word position chars rest _ some_ plain noAt delimited ?_
  rw [wordToken, decode_encode]
  simp only [noObj, Bool.false_eq_true, if_false]

theorem name_char_of_digit (radix number : Nat) (base : 1 < radix) (hex : radix ≤ 16) (char : Char)
    (member : char ∈ Nat.toDigits radix number) : isNameChar char = true ∧ char ≠ ':' := by
  obtain ⟨digit, small, rfl⟩ := digit_of_to_digits radix number base hex char member
  interval_cases digit <;> decide

private theorem from_parts_parts (oid : ObjectId) :
    ObjectId.fromParts (UInt16.ofNat oid.nodeId.toNat) oid.localSeq = oid := by
  have bound : oid.raw.toNat < 2 ^ 64 := oid.raw.toNat_lt
  have node : oid.nodeId.toNat = oid.raw.toNat / 2 ^ 48 := by
    rw [ObjectId.nodeId, UInt16.toNat_ofNat']
    omega
  have whole : (ObjectId.fromParts oid.nodeId oid.localSeq).raw.toNat = oid.raw.toNat := by
    rw [ObjectId.raw_from_parts, node, ObjectId.localSeq]
    omega
  rw [UInt16.ofNat_toNat]
  exact congrArg ObjectId.mk (UInt64.toNat_inj.mp whole)

private theorem split_at_colon (left right : List Char) (noColon : ∀ char ∈ left, char ≠ ':') :
    (left ++ ':' :: right).takeWhile (· ≠ ':') = left ∧
      ((left ++ ':' :: right).dropWhile (· ≠ ':')).drop 1 = right := by
  have inside : ∀ char ∈ left, decide (char ≠ ':') = true := by simpa using noColon
  rw [List.takeWhile_append_of_pos inside, List.dropWhile_append_of_pos inside]
  simp

private theorem word_token_object_id (position : Nat) (oid : ObjectId) :
    wordToken position (encode (showObjectId oid)) = .ok (.objId oid) := by
  have node : oid.nodeId.toNat < 2 ^ 16 := oid.nodeId.toNat_lt
  have number : oid.localSeq < 2 ^ 64 := Nat.lt_trans (Nat.mod_lt _ (by decide)) (by decide)
  have parts := split_at_colon (Nat.toDigits 16 oid.nodeId.toNat) (Nat.toDigits 10 oid.localSeq)
    fun char member => (name_char_of_digit 16 _ (by decide) (by decide) char member).2
  have stripped : (showObjectId oid).drop 4 =
      Nat.toDigits 16 oid.nodeId.toNat ++ ':' :: Nat.toDigits 10 oid.localSeq := by
    simp [showObjectId]
  have isObject : "obj:".toList.isPrefixOf (showObjectId oid) = true := by
    simp [showObjectId]
  rw [wordToken, decode_encode]
  simp only [isObject, if_true, stripped, parts,
    parse_unsigned_to_digits 16 _ _ (by decide) (by decide) node,
    parse_unsigned_to_digits 10 _ _ (by decide) (by decide) number, from_parts_parts]

private theorem Scans.objectId (oid : ObjectId) : Scans [.objId oid] (showObjectId oid) := by
  intro position rest delimited
  refine ⟨position + (encode (showObjectId oid)).length, ?_⟩
  refine tokenize_word position _ rest _ (by simp [showObjectId]) ?_ (by simp [showObjectId])
    delimited (word_token_object_id position oid)
  intro char member
  simp only [showObjectId, List.mem_append, List.mem_cons] at member
  rcases member with (keyword | node) | rfl | number
  · exact List.all_eq_true.mp (show "obj:".toList.all isNameChar = true by decide) char keyword
  · exact (name_char_of_digit 16 _ (by decide) (by decide) char node).1
  · decide
  · exact (name_char_of_digit 10 _ (by decide) (by decide) char number).1

theorem show_i64_chars (number : Int64) (char : Char) (member : char ∈ showI64 number) :
    char = '-' ∨ char ∈ Nat.toDigits 10 number.toInt.natAbs := by
  rw [showI64] at member
  split at member
  · exact List.mem_cons.mp member
  · exact Or.inr member

private theorem Scans.int (number : Int64) :
    Scans [.word (String.ofList (showI64 number))] (showI64 number) := by
  have plain : ∀ char ∈ showI64 number, isNameChar char = true ∧ char ≠ '@' ∧ char ≠ 'o' := by
    intro char member
    rcases show_i64_chars number char member with rfl | digit
    · decide
    · obtain ⟨value, small, rfl⟩ :=
        digit_of_to_digits 10 number.toInt.natAbs (by decide) (by decide) char digit
      interval_cases value <;> decide
  refine Scans.word _ ?_ (fun char member => (plain char member).1) ?_ ?_
  · rw [showI64]
    split
    · simp
    · exact Nat.toDigits_ne_nil
  · intro lead
    exact (plain '@' (List.mem_of_mem_head? lead)).2.1 rfl
  · rw [← Bool.not_eq_true, List.isPrefixOf_iff_prefix]
    intro isObject
    exact (plain 'o' (isObject.subset (by decide))).2.2 rfl

private theorem digits_bytes (number : Nat) :
    (encode (Nat.toDigits 10 number)).map byteChar = Nat.toDigits 10 number ∧
      ∀ byte ∈ encode (Nat.toDigits 10 number), isAsciiDigit byte = true := by
  have digits (char : Char) (member : char ∈ Nat.toDigits 10 number) :
      isAscii char = true ∧ isAsciiDigit (UInt8.ofNat char.toNat) = true := by
    have isDigit := Nat.isDigit_of_mem_toDigits (by decide) (by decide) member
    obtain ⟨value, small, rfl⟩ :=
      digit_of_to_digits 10 number (by decide) (by decide) char member
    interval_cases value <;> revert isDigit <;> decide
  constructor
  · exact (bytewise_eq_iff _).mpr (List.all_eq_true.mpr fun char member => (digits char member).1)
  · intro byte member
    obtain ⟨char, inside, here⟩ := List.mem_flatMap.mp member
    rw [encode_ascii char (digits char inside).1, List.mem_singleton] at here
    rw [here]
    exact (digits char inside).2

private theorem not_digit_of_delimited (byte : UInt8) (ends : isWordByte byte = false) :
    isAsciiDigit byte = false := by
  rw [← Bool.not_eq_true] at ends ⊢
  intro digit
  apply ends
  have range : 0x30 ≤ byte ∧ byte ≤ 0x39 := by simpa [isAsciiDigit] using digit
  have low : 48 ≤ byte.toNat := UInt8.le_iff_toNat_le.mp range.1
  have high : byte.toNat ≤ 57 := UInt8.le_iff_toNat_le.mp range.2
  have other (mark : UInt8) (outside : mark.toNat < 48) : byte ≠ mark := by
    rintro rfl
    omega
  simp [isWordByte, isAsciiWhitespace, openParen, closeParen, quote, other]

private theorem Scans.rawTag (tag : TagId) (small : tag < 2 ^ 32) :
    Scans [.atId tag] ('@' :: Nat.toDigits 10 tag) := by
  intro position rest delimited
  obtain ⟨back, inside⟩ := digits_bytes tag
  have taken : (encode (Nat.toDigits 10 tag) ++ rest).takeWhile isAsciiDigit =
      encode (Nat.toDigits 10 tag) := by
    rw [List.takeWhile_append_of_pos inside]
    cases rest with
    | nil => simp
    | cons byte later => simp [not_digit_of_delimited byte (delimited byte rfl)]
  refine ⟨position + 1 + (encode (Nat.toDigits 10 tag)).length, ?_⟩
  rw [show encode ('@' :: Nat.toDigits 10 tag) ++ rest =
    atSign :: (encode (Nat.toDigits 10 tag) ++ rest) from rfl, tokenizeAt]
  have notEmpty : encode (Nat.toDigits 10 tag) ≠ [] := encode_ne_nil _ Nat.toDigits_ne_nil
  have marks : isAsciiWhitespace atSign = false ∧ atSign ≠ openParen ∧ atSign ≠ closeParen ∧
      atSign ≠ quote := by decide
  simp only [marks, Bool.false_eq_true, if_false, if_true, taken, notEmpty, back,
    parse_unsigned_to_digits 10 _ _ (by decide) (by decide) small, List.drop_left]
  rfl

private theorem scan_string_plain (bytes rest : List UInt8)
    (plain : ∀ byte ∈ bytes, byte ≠ quote ∧ byte ≠ backslash) :
    scanString (bytes ++ rest) =
      (scanString rest).map fun (chars, left) => (bytes.map byteChar ++ chars, left) := by
  induction bytes with
  | nil => simp
  | cons byte later ih =>
      obtain ⟨notQuote, notEscape⟩ := plain byte List.mem_cons_self
      rw [List.cons_append, scan_string_byte byte _ notQuote notEscape,
        ih fun other member => plain other (List.mem_cons_of_mem _ member), Option.map_map]
      rfl

private theorem plain_char_bytes (char : Char) (notQuote : char ≠ '"') (notEscape : char ≠ '\\') :
    ∀ byte ∈ String.utf8EncodeChar char, byte ≠ quote ∧ byte ≠ backslash := by
  intro byte member
  rcases kind : isAscii char with _ | _
  · have wide := encode_wide char kind byte member
    constructor
    · rintro rfl
      exact absurd wide (by decide)
    · rintro rfl
      exact absurd wide (by decide)
  · rw [encode_ascii char kind, List.mem_singleton] at member
    have back := byte_char_ascii char kind
    rw [← member] at back
    constructor
    · rintro rfl
      exact notQuote back.symm
    · rintro rfl
      exact notEscape back.symm

theorem scan_string_escaped (chars : List Char) (rest : List UInt8) :
    scanString (encode (chars.flatMap escape) ++ quote :: rest) = some (bytewise chars, rest) := by
  induction chars with
  | nil => exact scan_string_quote rest
  | cons char later ih =>
      rw [List.flatMap_cons, encode_append, List.append_assoc, bytewise_cons]
      by_cases isQuote : char = '"'
      · subst isQuote
        rw [show encode (escape '"') = [backslash, quote] from rfl, List.cons_append,
          List.cons_append, List.nil_append, scan_string_escape, ih]
        rfl
      · by_cases isEscape : char = '\\'
        · subst isEscape
          rw [show encode (escape '\\') = [backslash, backslash] from rfl, List.cons_append,
            List.cons_append, List.nil_append, scan_string_escape, ih]
          rfl
        · have single : encode (escape char) = String.utf8EncodeChar char := by
            simp [escape, isQuote, isEscape, encode]
          rw [single, scan_string_plain _ _ (plain_char_bytes char isQuote isEscape), ih]
          rfl

private theorem Scans.text (chars : List Char) :
    Scans [.str (String.ofList (bytewise chars))] ('"' :: (chars.flatMap escape ++ ['"'])) := by
  intro position rest _
  have scanned := scan_string_escaped chars rest
  have shape : encode ('"' :: (chars.flatMap escape ++ ['"'])) ++ rest =
      quote :: (encode (chars.flatMap escape) ++ quote :: rest) := by
    rw [encode_cons, encode_append]
    simp only [List.append_assoc]
    rfl
  refine ⟨position + 1 + ((encode (chars.flatMap escape) ++ quote :: rest).length - rest.length), ?_⟩
  rw [shape, tokenizeAt, if_neg (by decide), if_neg (by decide), if_neg (by decide), if_pos rfl]
  split
  · next failed =>
      rw [scanned] at failed
      cases failed
  · next found left same =>
      rw [scanned] at same
      cases same
      rfl

/-- How a tag may be written: by its number, or by a word that the resolver maps
back. -/
inductive WrittenAs (resolver : String → Option TagId) (tag : TagId) (name : String) : Prop where
  | raw (same : name.toList = '@' :: Nat.toDigits 10 tag)
  | word (plain : name.toList.all isNameChar = true)
      (noAt : name.toList.head? ≠ some '@')
      (noObj : "obj:".toList.isPrefixOf name.toList = false) (back : resolver name = some tag)

section Tokens

variable (nameLookup : TagId → String)

/-- The tokens of a name: none if it is empty. -/
def nameTokens (tag : TagId) : List Token :=
  if (nameLookup tag).toList = [] then []
  else if (nameLookup tag).toList.head? = some '@' then [.atId tag]
  else [.word (nameLookup tag)]

/-- The token of a number or a text; a text has become its bytes. -/
def valueTokens : Value → List Token
  | .int number => [.word (String.ofList (showI64 number))]
  | .text string => [.str (String.ofList (bytewise string.toList))]
  | _ => []

mutual

def tokensOf : Types.Query → List Token
  | .hasTag tag => .lParen :: .word "tag" :: (nameTokens nameLookup tag ++ [.rParen])
  | .isA tag => .lParen :: .word "isa" :: (nameTokens nameLookup tag ++ [.rParen])
  | .hasAttr key op value =>
      .lParen :: .word "attr" :: (nameTokens nameLookup key ++
        ([.word (cmpToStr op)] ++ (valueTokens value ++ [.rParen])))
  | .related predicate target =>
      .lParen :: .word "related" :: (nameTokens nameLookup predicate ++
        ([.objId target] ++ [.rParen]))
  | .and children => .lParen :: .word "and" :: (tokensOfAll children ++ [.rParen])
  | .or children => .lParen :: .word "or" :: (tokensOfAll children ++ [.rParen])
  | .not child => .lParen :: .word "not" :: (tokensOf child ++ [.rParen])

def tokensOfAll : List Types.Query → List Token
  | [] => []
  | child :: rest => tokensOf child ++ tokensOfAll rest

end

def isIntOrText : Value → Bool
  | .int _ => true
  | .text _ => true
  | _ => false

variable {nameLookup} {resolver : String → Option TagId} {printer : Printer}

private theorem Scans.name (tag : TagId) (small : tag < 2 ^ 32)
    (written : WrittenAs resolver tag (nameLookup tag)) :
    Scans (nameTokens nameLookup tag) (nameLookup tag).toList := by
  rw [nameTokens]
  cases written with
  | raw same =>
      rw [same, if_neg (by simp), List.head?_cons, if_pos rfl]
      exact Scans.rawTag tag small
  | word plain noAt noObj _ =>
      by_cases empty : (nameLookup tag).toList = []
      · rw [if_pos empty, empty]
        exact Scans.nil
      · have scans := Scans.word _ empty (List.all_eq_true.mp plain) noAt noObj
        rw [String.ofList_toList] at scans
        rw [if_neg empty, if_neg noAt]
        exact scans

private theorem Scans.value (printer : Printer) (value : Value)
    (supported : isIntOrText value = true) :
    Scans (valueTokens value) (pushValue printer value) := by
  match value, supported with
  | .int number, _ => exact Scans.int number
  | .text string, _ => exact Scans.text string.toList

private theorem Scans.comparison (op : CmpOp) : Scans [.word (cmpToStr op)]
    (cmpToStr op).toList := by
  have plain : (cmpToStr op).toList.all isNameChar = true := by cases op <;> decide
  have scans := Scans.word (cmpToStr op).toList (by cases op <;> decide) (List.all_eq_true.mp plain)
    (by cases op <;> decide) (by cases op <;> decide)
  rw [String.ofList_toList] at scans
  exact scans

/-- An operator with its arguments. -/
theorem Scans.operator (head : String) (some_ : head.toList ≠ [])
    (plain : head.toList.all isNameChar = true) (noAt : head.toList.head? ≠ some '@')
    (noObj : "obj:".toList.isPrefixOf head.toList = false) {tokens : List Token}
    {chars : List Char} (arguments : Scans tokens chars) (marked : StartsWithMark chars) :
    Scans (.lParen :: .word head :: (tokens ++ [.rParen]))
      ('(' :: (head.toList ++ (chars ++ [')']))) := by
  have word := Scans.word head.toList some_ (List.all_eq_true.mp plain) noAt noObj
  rw [String.ofList_toList] at word
  have closed := arguments.append Scans.close (by rintro char ⟨⟩; rfl)
  refine (word.append closed ?_).open_
  cases chars with
  | nil => rintro char ⟨⟩; rfl
  | cons char rest => exact marked

theorem starts_with_space (chars : List Char) : StartsWithMark (' ' :: chars) := by
  rintro char ⟨⟩
  rfl

/-- The names and values of a query can be printed and read again. -/
structure Printable (resolver : String → Option TagId) (nameLookup : TagId → String)
    (query : Types.Query) : Prop where
  small : ∀ tag ∈ query.tags, tag < 2 ^ 32
  written : ∀ tag ∈ query.tags, WrittenAs resolver tag (nameLookup tag)
  supported : ∀ value ∈ query.values, isIntOrText value = true

theorem Printable.child {query child : Types.Query} (whole : Printable resolver nameLookup query)
    (part : ∀ {α : Type} (held : Types.Query → List α), child.collect held ⊆ query.collect held) :
    Printable resolver nameLookup child where
  small := fun tag member => whole.small tag (part _ member)
  written := fun tag member => whole.written tag (part _ member)
  supported := fun value member => whole.supported value (part _ member)

theorem collect_child {α : Type} (held : Types.Query → List α) (children : List Types.Query)
    (child : Types.Query) (member : child ∈ children) (own : List α) :
    child.collect held ⊆ own ++ Types.Query.collectIn held children := by
  intro item inside
  exact List.mem_append_right _ ((Types.Query.mem_collect_in held children item).mpr
    ⟨child, member, inside⟩)

private theorem render_all_scans (children : List Types.Query)
    (each : ∀ child ∈ children,
      Scans (tokensOf nameLookup child) (render printer nameLookup child).toList) :
    Scans (tokensOfAll nameLookup children) (renderAll printer nameLookup children).toList ∧
      StartsWithMark (renderAll printer nameLookup children).toList := by
  induction children with
  | nil =>
      rw [tokensOfAll, renderAll]
      exact ⟨Scans.nil, by rintro char ⟨⟩⟩
  | cons child rest ih =>
      obtain ⟨others, marked⟩ := ih fun other member => each other (List.mem_cons_of_mem _ member)
      rw [tokensOfAll, renderAll, String.toList_append, String.toList_append]
      exact ⟨((each child List.mem_cons_self).space).append others marked, starts_with_space _⟩

private theorem Printable.name {query : Types.Query}
    (printable : Printable resolver nameLookup query)
    (tag : TagId) (member : tag ∈ query.tags) :
    Scans (nameTokens nameLookup tag) (nameLookup tag).toList :=
  Scans.name tag (printable.small tag member) (printable.written tag member)

theorem render_scans (printer : Printer) (query : Types.Query)
    (printable : Printable resolver nameLookup query) :
    Scans (tokensOf nameLookup query) (render printer nameLookup query).toList := by
  induction query using Types.Query.tree_induction with
  | hasTag tag =>
      have name := printable.name tag (List.mem_singleton_self tag)
      rw [tokensOf, render, String.toList_append, String.toList_append]
      exact name.space.operator "tag" (by decide) (by decide) (by decide) (by decide)
        (starts_with_space _)
  | isA tag =>
      have name := printable.name tag (List.mem_singleton_self tag)
      rw [tokensOf, render, String.toList_append, String.toList_append]
      exact name.space.operator "isa" (by decide) (by decide) (by decide) (by decide)
        (starts_with_space _)
  | hasAttr key op value =>
      have name := printable.name key (List.mem_singleton_self key)
      have literal := Scans.value printer value
        (printable.supported value (List.mem_singleton_self value))
      have arguments := name.append
        ((Scans.comparison op).append literal.space (starts_with_space _)).space (starts_with_space _)
      have scans := arguments.space.operator "attr" (by decide) (by decide) (by decide) (by decide)
        (starts_with_space _)
      rw [tokensOf, render]
      simp only [String.toList_append, String.toList_ofList, List.append_assoc,
        List.cons_append] at scans ⊢
      exact scans
  | related predicate target =>
      have name := printable.name predicate (List.mem_singleton_self predicate)
      have arguments := name.append (Scans.objectId target).space (starts_with_space _)
      have scans := arguments.space.operator "related" (by decide) (by decide) (by decide)
        (by decide) (starts_with_space _)
      rw [tokensOf, render]
      simp only [String.toList_append, String.toList_ofList, List.append_assoc,
        List.cons_append] at scans ⊢
      exact scans
  | and children ih =>
      obtain ⟨arguments, marked⟩ := render_all_scans children fun child member =>
        ih child member (printable.child fun held => collect_child held children child member _)
      rw [tokensOf, render, String.toList_append, String.toList_append]
      exact arguments.operator "and" (by decide) (by decide) (by decide) (by decide) marked
  | or children ih =>
      obtain ⟨arguments, marked⟩ := render_all_scans children fun child member =>
        ih child member (printable.child fun held => collect_child held children child member _)
      rw [tokensOf, render, String.toList_append, String.toList_append]
      exact arguments.operator "or" (by decide) (by decide) (by decide) (by decide) marked
  | not child ih =>
      have inner := ih (printable.child fun held => List.subset_append_right _ _)
      rw [tokensOf, render, String.toList_append, String.toList_append]
      exact inner.space.operator "not" (by decide) (by decide) (by decide) (by decide)
        (starts_with_space _)

end Tokens

end Mimisbrunnr.Query
