import Mimisbrunnr.Lib.Text
import Mimisbrunnr.Query.Executor

/-!
# Queries as text

The S-expression form of queries: the printer, the tokenizer and the recursive
descent. The printer pushes characters, the tokenizer reads bytes. Tag names
are translated by a function in each direction. The printed forms of tokens in
messages and the two translations of floating-point numbers are parameters.

A parser returns what it has read and the tokens that are left. The tokens only
get fewer, which is why the recursion ends; `Parsed` carries that bound.
-/

namespace Mimisbrunnr.Query

set_option autoImplicit false

open Mimisbrunnr.Lib.Text
open Mimisbrunnr.Types

inductive Token where
  | lParen
  | rParen
  | word (text : String)
  | str (text : String)
  | atId (raw : Nat)
  | objId (oid : ObjectId)
deriving DecidableEq, Repr

structure Printer where
  token : Token → String
  float : UInt64 → String
  parseF64 : String → Option UInt64

def cmpToStr : CmpOp → String
  | .eq => "="
  | .ne => "!="
  | .lt => "<"
  | .le => "<="
  | .gt => ">"
  | .ge => ">="
  | .prefix_ => "prefix"
  | .contains => "contains"

def escape (char : Char) : List Char :=
  if char = '"' then ['\\', '"']
  else if char = '\\' then ['\\', '\\']
  else [char]

def pushValue (printer : Printer) : Value → List Char
  | .int number => showI64 number
  | .float bits => (printer.float bits).toList
  | .timestamp ns => "ts:".toList ++ showI64 ns
  | .text string => '"' :: (string.toList.flatMap escape ++ ['"'])
  | .blob bytes => "blob[".toList ++ Nat.toDigits 10 bytes.length ++ [']']
  | .scoped context inner =>
      "scoped(@".toList ++ Nat.toDigits 10 context ++ ',' :: pushValue printer inner ++ [')']

def showObjectId (oid : ObjectId) : List Char :=
  "obj:".toList ++ Nat.toDigits 16 oid.nodeId.toNat ++ ':' :: Nat.toDigits 10 oid.localSeq

section Render

variable (printer : Printer) (nameLookup : TagId → String)

mutual

def render : Types.Query → String
  | .hasTag tag => "(tag " ++ nameLookup tag ++ ")"
  | .isA tag => "(isa " ++ nameLookup tag ++ ")"
  | .hasAttr key op value =>
      "(attr " ++ nameLookup key ++ " " ++ cmpToStr op ++ " " ++
        String.ofList (pushValue printer value) ++ ")"
  | .related predicate target =>
      "(related " ++ nameLookup predicate ++ " " ++ String.ofList (showObjectId target) ++ ")"
  | .and children => "(and" ++ renderAll children ++ ")"
  | .or children => "(or" ++ renderAll children ++ ")"
  | .not child => "(not " ++ render child ++ ")"

def renderAll : List Types.Query → String
  | [] => ""
  | child :: rest => " " ++ render child ++ renderAll rest

end

def toSexpr (query : Types.Query) : String := render printer nameLookup query

end Render

def isAsciiWhitespace (byte : UInt8) : Bool :=
  byte = 0x20 || byte = 0x09 || byte = 0x0A || byte = 0x0C || byte = 0x0D

def isAsciiDigit (byte : UInt8) : Bool := 0x30 ≤ byte && byte ≤ 0x39

def openParen : UInt8 := 0x28
def closeParen : UInt8 := 0x29
def quote : UInt8 := 0x22
def backslash : UInt8 := 0x5C
def atSign : UInt8 := 0x40

def isWordByte (byte : UInt8) : Bool :=
  byte ≠ openParen && byte ≠ closeParen && ! isAsciiWhitespace byte && byte ≠ quote

/-- The characters up to the closing quote and the bytes behind it. Each byte is
taken for a character; a backslash hands over the byte that follows it. -/
def scanString : List UInt8 → Option (List Char × List UInt8)
  | [] => none
  | byte :: rest =>
      if byte = quote then some ([], rest)
      else if byte = backslash then
        match rest with
        | [] => none
        | next :: after =>
            (scanString after).map fun (chars, left) => (byteChar next :: chars, left)
      else (scanString rest).map fun (chars, left) => (byteChar byte :: chars, left)

theorem scan_string_quote (rest : List UInt8) : scanString (quote :: rest) = some ([], rest) := by
  rw [scanString.eq_def]
  exact if_pos rfl

theorem scan_string_escape (next : UInt8) (after : List UInt8) :
    scanString (backslash :: next :: after) =
      (scanString after).map fun (chars, left) => (byteChar next :: chars, left) := by
  rw [scanString.eq_def]
  rfl

theorem scan_string_byte (byte : UInt8) (rest : List UInt8) (notQuote : byte ≠ quote)
    (notEscape : byte ≠ backslash) :
    scanString (byte :: rest) =
      (scanString rest).map fun (chars, left) => (byteChar byte :: chars, left) := by
  rw [scanString.eq_def]
  simp only [notQuote, notEscape, if_false]

theorem scan_string_shorter (bytes left : List UInt8) (chars : List Char)
    (found : scanString bytes = some (chars, left)) : left.length < bytes.length := by
  induction bytes using scanString.induct generalizing chars with
  | case1 => cases found
  | case2 rest =>
      rw [scan_string_quote] at found
      cases found
      exact Nat.lt_succ_self _
  | case3 notQuote => cases found
  | case4 next after notQuote ih =>
      rw [scan_string_escape] at found
      obtain ⟨⟨later, rest⟩, scanned, same⟩ := Option.map_eq_some_iff.mp found
      cases same
      have shorter := ih later scanned
      simp only [List.length_cons]
      omega
  | case5 byte rest notQuote notEscape ih =>
      rw [scan_string_byte byte rest notQuote notEscape] at found
      obtain ⟨⟨later, left⟩, scanned, same⟩ := Option.map_eq_some_iff.mp found
      cases same
      exact Nat.lt_succ_of_lt (ih later scanned)

/-- A bare word, or the object identifier that it spells. -/
def wordToken (position : Nat) (bytes : List UInt8) : Except QueryError Token :=
  match decode bytes with
  | none => .error (.parse position "non-utf8 word")
  | some chars =>
      if "obj:".toList.isPrefixOf chars then
        let stripped := chars.drop 4
        let nodePart := stripped.takeWhile (· ≠ ':')
        let localPart := (stripped.dropWhile (· ≠ ':')).drop 1
        match parseUnsigned 16 (2 ^ 16) nodePart with
        | none =>
            .error (.parse position ("bad ObjectId node `" ++ String.ofList nodePart ++ "`"))
        | some node =>
            match parseUnsigned 10 (2 ^ 64) localPart with
            | none =>
                .error (.parse position ("bad ObjectId local `" ++ String.ofList localPart ++ "`"))
            | some localSeq => .ok (.objId (ObjectId.fromParts (UInt16.ofNat node) localSeq))
      else .ok (.word (String.ofList chars))

/-- The tokens of the bytes from a position on. -/
def tokenizeAt (position : Nat) (bytes : List UInt8) : Except QueryError (List Token) :=
  match bytes with
  | [] => .ok []
  | byte :: rest =>
      if isAsciiWhitespace byte then tokenizeAt (position + 1) rest
      else if byte = openParen then (tokenizeAt (position + 1) rest).map (.lParen :: ·)
      else if byte = closeParen then (tokenizeAt (position + 1) rest).map (.rParen :: ·)
      else if byte = quote then
        match scanned : scanString rest with
        | none => .error (.parse (position + 1 + rest.length) "unterminated string literal")
        | some (chars, left) =>
            have := scan_string_shorter rest left chars scanned
            (tokenizeAt (position + 1 + (rest.length - left.length)) left).map
              (.str (String.ofList chars) :: ·)
      else if byte = atSign then
        let digits := rest.takeWhile isAsciiDigit
        if digits = [] then .error (.parse position "expected digits after `@`")
        else
          match parseUnsigned 10 (2 ^ 32) (digits.map byteChar) with
          | none => .error (.parse position "@id literal does not fit u32")
          | some raw =>
              (tokenizeAt (position + 1 + digits.length) (rest.drop digits.length)).map
                (.atId raw :: ·)
      else
        let word := (byte :: rest).takeWhile isWordByte
        if empty : word = [] then
          .error (.parse position ("unexpected character `" ++ String.ofList [byteChar byte] ++ "`"))
        else
          have := List.length_pos_of_ne_nil empty
          match wordToken position word with
          | .error err => .error err
          | .ok token =>
              (tokenizeAt (position + word.length) ((byte :: rest).drop word.length)).map (token :: ·)
termination_by bytes.length

def tokenize (input : String) : Except QueryError (List Token) :=
  tokenizeAt 0 (encode input.toList)

/-- A value read from tokens and the tokens left, fewer than the limit. -/
structure Parsed (limit : Nat) (α : Type) where
  value : α
  rest : List Token
  below : rest.length < limit

/-- The same with another value, after no further token. -/
def Parsed.loosen {limit : Nat} {α β : Type} (f : α → β) (parsed : Parsed limit α) :
    Parsed (limit + 1) β :=
  { value := f parsed.value
    rest := parsed.rest
    below := Nat.lt_succ_of_lt parsed.below }

inductive Head where
  | tag
  | isa
  | attr
  | related
  | and
  | or
  | not
deriving DecidableEq, Repr

def headOf (word : String) : Option Head :=
  if word = "tag" then some .tag
  else if word = "isa" then some .isa
  else if word = "attr" then some .attr
  else if word = "related" then some .related
  else if word = "and" then some .and
  else if word = "or" then some .or
  else if word = "not" then some .not
  else none

def cmpOf (word : String) : Option CmpOp :=
  if word = "=" then some .eq
  else if word = "!=" then some .ne
  else if word = "<" then some .lt
  else if word = "<=" then some .le
  else if word = ">" then some .gt
  else if word = ">=" then some .ge
  else if word = "prefix" then some .prefix_
  else if word = "contains" then some .contains
  else none

def atEnd : List Token → Bool
  | [] => true
  | token :: _ => token = .rParen

section Descent

variable (printer : Printer) (resolver : String → Option TagId) (total : Nat)

/-- One token: refused without a value, otherwise what it means. A position is
the number of tokens before it. -/
def readToken {α : Type} (refusal eof : String) (read : Token → Option (Except QueryError α))
    (tokens : List Token) : Except QueryError (Parsed tokens.length α) :=
  match tokens with
  | [] => .error (.parse total eof)
  | token :: rest =>
      match read token with
      | none => .error (.parse (total - (rest.length + 1)) (refusal ++ printer.token token))
      | some (.error err) => .error err
      | some (.ok value) => .ok { value := value, rest := rest, below := Nat.lt_succ_self _ }

def expect (want : Token) : (tokens : List Token) → Except QueryError (Parsed tokens.length Unit) :=
  readToken printer total ("expected " ++ printer.token want ++ ", got ")
    ("expected " ++ printer.token want ++ ", got EOF")
    fun token => if token = want then some (.ok ()) else none

def operatorName : (tokens : List Token) → Except QueryError (Parsed tokens.length String) :=
  readToken printer total "expected operator name, got " "expected operator after `(`" fun
    | .word word => some (.ok word)
    | _ => none

def parseNameAsTag : (tokens : List Token) → Except QueryError (Parsed tokens.length TagId) :=
  readToken printer total "expected tag name, got " "expected tag name, got EOF" fun
    | .word word =>
        match resolver word with
        | some tag => some (.ok tag)
        | none => some (.error (.unknownTag word))
    | .atId raw => some (.ok raw)
    | _ => none

def expectWord : (tokens : List Token) → Except QueryError (Parsed tokens.length String) :=
  readToken printer total "expected operator, got " "expected operator, got EOF" fun
    | .word word => some (.ok word)
    | _ => none

def expectObjectId : (tokens : List Token) → Except QueryError (Parsed tokens.length ObjectId) :=
  readToken printer total "expected ObjectId, got " "expected ObjectId after `related <pred>`" fun
    | .objId oid => some (.ok oid)
    | _ => none

def parseValue : (tokens : List Token) → Except QueryError (Parsed tokens.length Value) :=
  readToken printer total "expected value, got " "expected value, got EOF" fun
    | .str text => some (.ok (.text text))
    | .word word =>
        match parseI64 word.toList with
        | some number => some (.ok (.int number))
        | none =>
            match printer.parseF64 word with
            | some bits => some (.ok (.float bits))
            | none => some (.ok (.text word))
    | _ => none

mutual

def parseAtom (tokens : List Token) : Except QueryError (Parsed tokens.length Types.Query) := do
  let opened ← expect printer total .lParen tokens
  let head ← operatorName printer total opened.rest
  have := opened.below
  have := head.below
  let body ← parseBody head.value head.rest
  let closed ← expect printer total .rParen body.rest
  have := body.below
  have := closed.below
  .ok { value := body.value, rest := closed.rest, below := by omega }
termination_by (tokens.length, 0)

/-- The arguments of an operator, up to its closing parenthesis. -/
def parseBody (head : String) (tokens : List Token) :
    Except QueryError (Parsed (tokens.length + 1) Types.Query) :=
  match headOf head with
  | none => .error (.unknownOp head)
  | some .tag => (parseNameAsTag printer resolver total tokens).map (·.loosen .hasTag)
  | some .isa => (parseNameAsTag printer resolver total tokens).map (·.loosen .isA)
  | some .attr => do
      let key ← parseNameAsTag printer resolver total tokens
      let word ← expectWord printer total key.rest
      match cmpOf word.value with
      | none => .error (.unknownOp word.value)
      | some op => do
          let value ← parseValue printer total word.rest
          have := key.below
          have := word.below
          have := value.below
          .ok
            { value := .hasAttr key.value op value.value
              rest := value.rest
              below := by omega }
  | some .related => do
      let predicate ← parseNameAsTag printer resolver total tokens
      let target ← expectObjectId printer total predicate.rest
      have := predicate.below
      have := target.below
      .ok
        { value := .related predicate.value target.value
          rest := target.rest
          below := by omega }
  | some .and => (parseChildren tokens).map fun children =>
      { value := .and children.value, rest := children.rest, below := children.below }
  | some .or => (parseChildren tokens).map fun children =>
      { value := .or children.value, rest := children.rest, below := children.below }
  | some .not => (parseAtom tokens).map (·.loosen .not)
termination_by (tokens.length, 2)

def parseChildren (tokens : List Token) :
    Except QueryError (Parsed (tokens.length + 1) (List Types.Query)) :=
  if atEnd tokens then
    .ok { value := [], rest := tokens, below := Nat.lt_succ_self _ }
  else do
    let child ← parseAtom tokens
    have := child.below
    let others ← parseChildren child.rest
    have := others.below
    .ok { value := child.value :: others.value, rest := others.rest, below := by omega }
termination_by (tokens.length, 1)

end

end Descent

def parse (printer : Printer) (input : String) (resolver : String → Option TagId) :
    Except QueryError Types.Query := do
  let tokens ← tokenize input
  let parsed ← parseAtom printer resolver tokens.length tokens
  match parsed.rest with
  | [] => .ok parsed.value
  | token :: rest =>
      .error (.parse (tokens.length - (rest.length + 1)) ("trailing token: " ++ printer.token token))

end Mimisbrunnr.Query
