import Mimisbrunnr.Lib.Text
import Mimisbrunnr.Ontology.State
import Mimisbrunnr.Types.Query

/-!
# Planning of WHERE clauses

The translation of the condition of a `SELECT` into a query. The syntax tree is
that of the SQL parser, cut to the shapes the planner tells apart; every other
shape is `other` with its printed form. The printed forms of the known shapes
and the parser of floating-point numbers are parameters.

`plan_like` cuts its pattern at byte positions. Where such a position falls
inside a character the program stops, and `PlanFailure.panicked` stands for
that.
-/

namespace Mimisbrunnr.Sql

set_option autoImplicit false

open Mimisbrunnr.Lib.Text
open Mimisbrunnr.Ontology
open Mimisbrunnr.Types

inductive Literal where
  | number (text : String)
  | singleQuotedString (text : String)
  | doubleQuotedString (text : String)
  | boolean (value : Bool)
  | other (shown : String)
deriving DecidableEq, Repr

inductive UnaryOperator where
  | not
  | minus
  | other (shown : String)
deriving DecidableEq, Repr

inductive BinaryOperator where
  | and
  | or
  | eq
  | notEq
  | lt
  | ltEq
  | gt
  | gtEq
  | other (shown : String)
deriving DecidableEq, Repr

inductive FunctionArg (α : Type) where
  | unnamed (expr : α)
  | other (shown : String)

inductive FunctionArguments (α : Type) where
  | list (args : List (FunctionArg α))
  | none
  | other (shown : String)

inductive Expr where
  | identifier (value : String)
  | compoundIdentifier (parts : List String)
  | value (literal : Literal)
  | unaryOp (op : UnaryOperator) (expr : Expr)
  | binaryOp (left : Expr) (op : BinaryOperator) (right : Expr)
  | like (expr pattern : Expr) (negated : Bool)
  | inList (expr : Expr) (list : List Expr) (negated : Bool)
  | function (name : String) (args : FunctionArguments Expr)
  | nested (expr : Expr)
  | other (shown : String)

inductive SqlError where
  | parseError (message : String)
  | unsupported (message : String)
  | unknownTag (name : String)
  | unsupportedPattern (pattern : String)
deriving DecidableEq, Repr

inductive PlanFailure where
  | sql (err : SqlError)
  | panicked
deriving DecidableEq, Repr

/-- The printed forms that messages contain, and the parser of numbers with a
fraction or an exponent, which returns the 64-bit pattern. -/
structure Texts where
  expr : Expr → String
  literal : Literal → String
  operator : BinaryOperator → String
  value : Value → String
  parseF64 : String → Option UInt64

def unsupported {α : Type} (message : String) : Except PlanFailure α :=
  .error (.sql (.unsupported message))

def eqIgnoreAsciiCase (left right : String) : Bool :=
  left.toList.map Char.toLower = right.toList.map Char.toLower

def identifierName (texts : Texts) : Expr → Except PlanFailure String
  | .identifier value => .ok value
  | .compoundIdentifier parts =>
      match parts.getLast? with
      | some part => .ok part
      | none => unsupported "empty compound identifier"
  | other => unsupported ("expected identifier, got: " ++ texts.expr other)

def literalText (texts : Texts) : Expr → Except PlanFailure String
  | .value (.singleQuotedString text) => .ok text
  | .value (.doubleQuotedString text) => .ok text
  | .value other => unsupported ("expected string literal, got: " ++ texts.literal other)
  | other => unsupported ("expected string literal, got: " ++ texts.expr other)

def exprToValue (texts : Texts) : Expr → Except PlanFailure Value
  | .value (.singleQuotedString text) => .ok (.text text)
  | .value (.doubleQuotedString text) => .ok (.text text)
  | .value (.number text) =>
      match parseI64 text.toList with
      | some number => .ok (.int number)
      | none =>
          match texts.parseF64 text with
          | some bits => .ok (.float bits)
          | none => .error (.sql (.parseError ("invalid number `" ++ text ++ "`")))
  | .value (.boolean value) => .ok (.int (if value then 1 else 0))
  | .value other => unsupported ("literal value: " ++ texts.literal other)
  | .unaryOp .minus inner => do
      match ← exprToValue texts inner with
      | .int number => .ok (.int (-number))
      | .float bits => .ok (.float (bits ^^^ 0x8000000000000000))
      | other => unsupported ("cannot negate value: " ++ texts.value other)
  | other => unsupported ("expected value literal, got: " ++ texts.expr other)

def argAsText (texts : Texts) : FunctionArg Expr → Except PlanFailure String
  | .unnamed expr => literalText texts expr
  | .other shown => unsupported ("function arg (expected text literal): " ++ shown)

def argAsInt (texts : Texts) : FunctionArg Expr → Except PlanFailure Int64
  | .unnamed expr => do
      match ← exprToValue texts expr with
      | .int number => .ok number
      | other => unsupported ("expected integer arg, got: " ++ texts.value other)
  | .other shown => unsupported ("function arg (expected int literal): " ++ shown)

def resolveTag (name : String) (ontology : OntologyState) : Except PlanFailure TagId :=
  match ontology.names.lookup name with
  | some tag => .ok tag
  | none => .error (.sql (.unknownTag name))

/-- The slice without the first and the last byte: it panics when one of the
two is only a part of a character. -/
def middleSlice (pattern : String) : Except PlanFailure (List Char) :=
  if 2 ≤ pattern.utf8ByteSize then
    match pattern.toList.head?, pattern.toList.getLast? with
    | some first, some last =>
        if first.utf8Size = 1 ∧ last.utf8Size = 1 then .ok (pattern.toList.drop 1).dropLast
        else .error .panicked
    | _, _ => .ok []
  else .ok []

def planLike (column pattern : String) (ontology : OntologyState) : Except PlanFailure Query := do
  let hasLead := pattern.toList.head? = some '%'
  let hasTrail := pattern.toList.getLast? = some '%'
  let middle ← middleSlice pattern
  if '_' ∈ pattern.toList ∨ '%' ∈ middle then
    .error (.sql (.unsupportedPattern pattern))
  else
    let key ← resolveTag column ontology
    match decide hasLead, decide hasTrail with
    | false, true => .ok (.hasAttr key .prefix_ (.text (String.ofList pattern.toList.dropLast)))
    | true, false => .ok (.hasAttr key .contains (.text (String.ofList (pattern.toList.drop 1))))
    | true, true => .error (.sql (.unsupportedPattern pattern))
    | false, false => .ok (.hasAttr key .eq (.text pattern))

/-- The terms of a list, or the first failure. -/
def collectTerms (term : Expr → Except PlanFailure Query) :
    List Expr → Except PlanFailure (List Query)
  | [] => .ok []
  | expr :: rest => do
      let first ← term expr
      let others ← collectTerms term rest
      .ok (first :: others)

def planInList (texts : Texts) (column : String) (list : List Expr) (ontology : OntologyState) :
    Except PlanFailure Query :=
  if eqIgnoreAsciiCase column "tag" then do
    let terms ← collectTerms (fun expr => do
      let name ← literalText texts expr
      let id ← resolveTag name ontology
      .ok (.hasTag id)) list
    .ok (.or terms)
  else do
    let key ← resolveTag column ontology
    let terms ← collectTerms (fun expr => do
      let value ← exprToValue texts expr
      .ok (.hasAttr key .eq value)) list
    .ok (.or terms)

def planFunction (texts : Texts) (name : String) (arguments : FunctionArguments Expr)
    (ontology : OntologyState) : Except PlanFailure Query :=
  let args : Except PlanFailure (List (FunctionArg Expr)) :=
    match arguments with
    | .list args => .ok args
    | .none => .ok []
    | .other shown => unsupported ("function arguments: " ++ shown)
  match args with
  | .error failure => .error failure
  | .ok args =>
      if eqIgnoreAsciiCase name "isa" then
        match args with
        | [arg] => do
            let tagName ← argAsText texts arg
            let id ← resolveTag tagName ontology
            .ok (.isA id)
        | _ => unsupported ("isa() takes 1 argument, got " ++ toString args.length)
      else if eqIgnoreAsciiCase name "related" then
        match args with
        | [predicateArg, targetArg] => do
            let predicateName ← argAsText texts predicateArg
            let predicate ← resolveTag predicateName ontology
            let targetRaw ← argAsInt texts targetArg
            .ok (.related predicate (ObjectId.fromU64 targetRaw.toUInt64))
        | _ => unsupported ("related() takes 2 arguments, got " ++ toString args.length)
      else unsupported ("function `" ++ name ++ "`")

mutual

def flattenAnd (out : List Query) : Query → List Query
  | .and children => flattenAndAll out children
  | other => out ++ [other]

def flattenAndAll (out : List Query) : List Query → List Query
  | [] => out
  | child :: rest => flattenAndAll (flattenAnd out child) rest

end

mutual

def flattenOr (out : List Query) : Query → List Query
  | .or children => flattenOrAll out children
  | other => out ++ [other]

def flattenOrAll (out : List Query) : List Query → List Query
  | [] => out
  | child :: rest => flattenOrAll (flattenOr out child) rest

end

/-- The comparison of a binary operator, none for the operators that are not
comparisons. -/
def cmpOp : BinaryOperator → Option CmpOp
  | .eq => some .eq
  | .notEq => some .ne
  | .lt => some .lt
  | .ltEq => some .le
  | .gt => some .gt
  | .gtEq => some .ge
  | _ => none

/-- A comparison of a column with a literal. -/
def planComparison (texts : Texts) (left : Expr) (op : BinaryOperator) (cmp : CmpOp)
    (right : Expr) (ontology : OntologyState) : Except PlanFailure Query := do
  let column ← identifierName texts left
  if eqIgnoreAsciiCase column "tag" then
    if op ≠ .eq then
      unsupported ("operator `" ++ texts.operator op ++
        "` against `tag` column (only `=` and `IN` supported)")
    else
      let name ← literalText texts right
      let id ← resolveTag name ontology
      .ok (.hasTag id)
  else
    let value ← exprToValue texts right
    let key ← resolveTag column ontology
    .ok (.hasAttr key cmp value)

def negate (negated : Bool) (query : Query) : Query := if negated then .not query else query

def planExpr (texts : Texts) (ontology : OntologyState) : Expr → Except PlanFailure Query
  | .nested inner => planExpr texts ontology inner
  | .unaryOp .not inner => do
      let query ← planExpr texts ontology inner
      .ok (.not query)
  | .binaryOp left op right =>
      match op with
      | .and => do
          let l ← planExpr texts ontology left
          let r ← planExpr texts ontology right
          .ok (.and (flattenAnd (flattenAnd [] l) r))
      | .or => do
          let l ← planExpr texts ontology left
          let r ← planExpr texts ontology right
          .ok (.or (flattenOr (flattenOr [] l) r))
      | op =>
          match cmpOp op with
          | some cmp => planComparison texts left op cmp right ontology
          | none => unsupported ("binary operator: " ++ texts.operator op)
  | .like expr pattern negated => do
      let column ← identifierName texts expr
      let pat ← literalText texts pattern
      let query ← planLike column pat ontology
      .ok (negate negated query)
  | .inList expr list negated => do
      let column ← identifierName texts expr
      let query ← planInList texts column list ontology
      .ok (negate negated query)
  | .function name args => planFunction texts name args ontology
  | other => unsupported ("WHERE expression: " ++ texts.expr other)

end Mimisbrunnr.Sql
