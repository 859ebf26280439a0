import Mimisbrunnr.Query.TextRoundTrip

/-!
# The grammar of queries

The sentences over tokens and the queries they denote. An atom is an operator with
its arguments in parentheses; what counts as a value is a parameter, since the
parser takes a bare word for a text and no identifier, while the written grammar
has identifiers and no bare words.
-/

namespace Mimisbrunnr.Query

set_option autoImplicit false

open Mimisbrunnr.Lib.Text
open Mimisbrunnr.Types

/-- A name: a word that the resolver knows, or the number of a tag. -/
inductive Name (resolver : String → Option TagId) : Token → TagId → Prop where
  | word (word : String) (tag : TagId) (known : resolver word = some tag) :
      Name resolver (.word word) tag
  | id (raw : Nat) : Name resolver (.atId raw) raw

section

variable (value : Token → Value → Prop) (resolver : String → Option TagId)

mutual

inductive Atom : Types.Query → List Token → Prop where
  | parens (head : String) (query : Types.Query) (inner : List Token)
      (arguments : Arguments head query inner) :
      Atom query (.lParen :: .word head :: (inner ++ [.rParen]))

/-- The arguments of an operator. -/
inductive Arguments : String → Types.Query → List Token → Prop where
  | tag (token : Token) (tag : TagId) (name : Name resolver token tag) :
      Arguments "tag" (.hasTag tag) [token]
  | isa (token : Token) (tag : TagId) (name : Name resolver token tag) :
      Arguments "isa" (.isA tag) [token]
  | attr (token : Token) (key : TagId) (op : CmpOp) (literal : Token) (read : Value)
      (name : Name resolver token key) (means : value literal read) :
      Arguments "attr" (.hasAttr key op read) [token, .word (cmpToStr op), literal]
  | related (token : Token) (predicate : TagId) (target : ObjectId)
      (name : Name resolver token predicate) :
      Arguments "related" (.related predicate target) [token, .objId target]
  | and (children : List Types.Query) (inner : List Token) (each : Children children inner) :
      Arguments "and" (.and children) inner
  | or (children : List Types.Query) (inner : List Token) (each : Children children inner) :
      Arguments "or" (.or children) inner
  | not (child : Types.Query) (inner : List Token) (atom : Atom child inner) :
      Arguments "not" (.not child) inner

inductive Children : List Types.Query → List Token → Prop where
  | nil : Children [] []
  | cons (child : Types.Query) (rest : List Types.Query) (first others : List Token)
      (atom : Atom child first) (later : Children rest others) :
      Children (child :: rest) (first ++ others)

end

end

/-- A value as the parser reads it: a string, a number, or a bare word that is no number. -/
inductive Literal (printer : Printer) : Token → Value → Prop where
  | string (text : String) : Literal printer (.str text) (.text text)
  | integer (word : String) (number : Int64) (reads : parseI64 word.toList = some number) :
      Literal printer (.word word) (.int number)
  | float (word : String) (bits : UInt64) (other : parseI64 word.toList = none)
      (reads : printer.parseF64 word = some bits) : Literal printer (.word word) (.float bits)
  | bare (word : String) (other : parseI64 word.toList = none)
      (another : printer.parseF64 word = none) : Literal printer (.word word) (.text word)

/-- A value as the comment on the parser has it. What an identifier stands for is left open. -/
inductive WrittenLiteral (printer : Printer) : Token → Value → Prop where
  | string (text : String) : WrittenLiteral printer (.str text) (.text text)
  | integer (word : String) (number : Int64) (reads : parseI64 word.toList = some number) :
      WrittenLiteral printer (.word word) (.int number)
  | float (word : String) (bits : UInt64) (reads : printer.parseF64 word = some bits) :
      WrittenLiteral printer (.word word) (.float bits)
  | id (raw : Nat) (value : Value) : WrittenLiteral printer (.atId raw) value

section

variable (printer : Printer) (resolver : String → Option TagId) (total : Nat)

theorem accepts_ok_iff {limit : Nat} {α : Type} (parsed : Parsed limit α) (value : α)
    (rest : List Token) :
    Accepts (.ok parsed) value rest ↔ parsed.value = value ∧ parsed.rest = rest := by
  constructor
  · intro accepted
    obtain ⟨below, same⟩ := accepted
    cases same
    exact ⟨rfl, rfl⟩
  · intro both
    obtain ⟨rfl, rfl⟩ := both
    exact ⟨parsed.below, rfl⟩

theorem not_accepts_error {limit : Nat} {α : Type} (err : QueryError) (value : α)
    (rest : List Token) :
    ¬ Accepts (.error err : Except QueryError (Parsed limit α)) value rest := by
  intro accepted
  obtain ⟨below, same⟩ := accepted
  cases same

theorem accepts_read_token_iff {α : Type} (refusal eof : String)
    (read : Token → Option (Except QueryError α)) (tokens : List Token) (value : α)
    (rest : List Token) :
    Accepts (readToken printer total refusal eof read tokens) value rest ↔
      ∃ token, tokens = token :: rest ∧ read token = some (.ok value) := by
  constructor
  · intro accepted
    cases tokens with
    | nil => exact absurd accepted (not_accepts_error _ value rest)
    | cons token others =>
        rw [readToken] at accepted
        cases outcome : read token with
        | none =>
            rw [outcome] at accepted
            exact absurd accepted (not_accepts_error _ value rest)
        | some result =>
            rw [outcome] at accepted
            cases result with
            | error err => exact absurd accepted (not_accepts_error _ value rest)
            | ok found =>
                obtain ⟨same, left⟩ := (accepts_ok_iff _ value rest).mp accepted
                dsimp only at same left
                rw [← left, ← same]
                exact ⟨token, rfl, outcome⟩
  · intro found
    obtain ⟨token, shape, known⟩ := found
    rw [shape]
    exact read_token_accepts refusal eof read token rest value known

private theorem accepts_expect_iff (want : Token) (tokens rest : List Token) :
    Accepts (expect printer total want tokens) () rest ↔ tokens = want :: rest := by
  rw [expect, accepts_read_token_iff]
  constructor
  · intro found
    obtain ⟨token, shape, wanted⟩ := found
    split at wanted
    · next same => rw [shape, same]
    · cases wanted
  · intro shape
    exact ⟨want, shape, if_pos rfl⟩

/-- A reader of the tokens of one form. -/
theorem accepts_form_iff {α : Type} (refusal eof : String)
    (read : Token → Option (Except QueryError α)) (form : α → Token)
    (reads : ∀ token value, read token = some (.ok value) ↔ token = form value)
    (tokens : List Token) (value : α) (rest : List Token) :
    Accepts (readToken printer total refusal eof read tokens) value rest ↔
      tokens = form value :: rest := by
  rw [accepts_read_token_iff]
  constructor
  · intro found
    obtain ⟨token, shape, known⟩ := found
    rw [shape, (reads token value).mp known]
  · intro shape
    exact ⟨form value, shape, (reads (form value) value).mpr rfl⟩

private theorem accepts_operator_iff (tokens : List Token) (head : String) (rest : List Token) :
    Accepts (operatorName printer total tokens) head rest ↔ tokens = .word head :: rest := by
  apply accepts_form_iff
  intro token value
  cases token <;> simp

private theorem accepts_word_iff (tokens : List Token) (word : String) (rest : List Token) :
    Accepts (expectWord printer total tokens) word rest ↔ tokens = .word word :: rest := by
  apply accepts_form_iff
  intro token value
  cases token <;> simp

private theorem accepts_object_id_iff (tokens : List Token) (oid : ObjectId) (rest : List Token) :
    Accepts (expectObjectId printer total tokens) oid rest ↔ tokens = .objId oid :: rest := by
  apply accepts_form_iff
  intro token value
  cases token <;> simp

theorem accepts_name_iff (tokens : List Token) (tag : TagId) (rest : List Token) :
    Accepts (parseNameAsTag printer resolver total tokens) tag rest ↔
      ∃ token, tokens = token :: rest ∧ Name resolver token tag := by
  rw [parseNameAsTag, accepts_read_token_iff]
  apply exists_congr
  intro token
  apply and_congr_right
  intro _
  constructor
  · intro wanted
    cases token with
    | word word =>
        dsimp only at wanted
        cases known : resolver word with
        | none =>
            rw [known] at wanted
            cases wanted
        | some found =>
            rw [known] at wanted
            cases wanted
            exact .word word tag known
    | atId raw =>
        cases wanted
        exact .id _
    | _ => cases wanted
  · intro name
    cases name with
    | word word _ known => simp only [known]
    | id raw => rfl

private theorem accepts_value_iff (tokens : List Token) (value : Value) (rest : List Token) :
    Accepts (parseValue printer total tokens) value rest ↔
      ∃ token, tokens = token :: rest ∧ Literal printer token value := by
  rw [parseValue, accepts_read_token_iff]
  apply exists_congr
  intro token
  apply and_congr_right
  intro _
  constructor
  · intro wanted
    cases token with
    | str text =>
        cases wanted
        exact .string text
    | word word =>
        dsimp only at wanted
        cases whole : parseI64 word.toList with
        | some number =>
            rw [whole] at wanted
            cases wanted
            exact .integer word number whole
        | none =>
            rw [whole] at wanted
            dsimp only at wanted
            cases pattern : printer.parseF64 word with
            | some bits =>
                rw [pattern] at wanted
                cases wanted
                exact .float word bits whole pattern
            | none =>
                rw [pattern] at wanted
                cases wanted
                exact .bare word whole pattern
    | _ => cases wanted
  · intro literal
    cases literal with
    | string text => rfl
    | integer word number reads => simp only [reads]
    | float word bits other reads => simp only [other, reads]
    | bare word other another => simp only [other, another]

theorem bind_ok_iff {α β : Type} (first : Except QueryError α) (next : α → Except QueryError β)
    (result : β) : first >>= next = .ok result ↔ ∃ a, first = .ok a ∧ next a = .ok result := by
  cases first with
  | error err => exact iff_of_false nofun fun found => by cases found.choose_spec.1
  | ok a =>
      constructor
      · intro found
        exact ⟨a, rfl, found⟩
      · intro found
        obtain ⟨other, same, found⟩ := found
        cases same
        exact found

theorem accepts_atom_iff (tokens : List Token) (query : Types.Query) (rest : List Token) :
    Accepts (parseAtom printer resolver total tokens) query rest ↔
      ∃ head arguments, tokens = .lParen :: .word head :: arguments ∧
        Accepts (parseBody printer resolver total head arguments) query (.rParen :: rest) := by
  constructor
  · intro accepted
    obtain ⟨below, parsed⟩ := accepted
    rw [parseAtom] at parsed
    obtain ⟨opened, first, parsed⟩ := (bind_ok_iff _ _ _).mp parsed
    obtain ⟨head, second, parsed⟩ := (bind_ok_iff _ _ _).mp parsed
    obtain ⟨body, third, parsed⟩ := (bind_ok_iff _ _ _).mp parsed
    obtain ⟨closed, last, parsed⟩ := (bind_ok_iff _ _ _).mp parsed
    cases parsed
    have openShape := (accepts_expect_iff printer total .lParen tokens opened.rest).mp
      ⟨opened.below, first⟩
    have headShape := (accepts_operator_iff printer total opened.rest head.value head.rest).mp
      ⟨head.below, second⟩
    have closeShape := (accepts_expect_iff printer total .rParen body.rest closed.rest).mp
      ⟨closed.below, last⟩
    refine ⟨head.value, head.rest, openShape.trans (congrArg _ headShape), ?_⟩
    rw [← closeShape]
    exact ⟨body.below, third⟩
  · intro found
    obtain ⟨head, arguments, shape, body⟩ := found
    rw [shape]
    exact parse_atom_accepts head arguments rest query body

/-- The loop over children ends in front of a closing parenthesis or at the end. -/
theorem accepts_children_iff (tokens : List Token) (children : List Types.Query)
    (rest : List Token) :
    Accepts (parseChildren printer resolver total tokens) children rest ↔
      atEnd tokens = true ∧ children = [] ∧ tokens = rest ∨
      atEnd tokens = false ∧ ∃ child others middle, children = child :: others ∧
        Accepts (parseAtom printer resolver total tokens) child middle ∧
        Accepts (parseChildren printer resolver total middle) others rest := by
  rw [parseChildren]
  cases atEnd tokens with
  | true =>
      simp only [if_true, accepts_ok_iff, Bool.true_eq_false, false_and, or_false, true_and]
      exact and_congr_left' eq_comm
  | false =>
      simp only [Bool.false_eq_true, if_false, false_and, false_or, true_and]
      constructor
      · intro accepted
        obtain ⟨below, parsed⟩ := accepted
        obtain ⟨child, first, parsed⟩ := (bind_ok_iff _ _ _).mp parsed
        obtain ⟨others, second, parsed⟩ := (bind_ok_iff _ _ _).mp parsed
        cases parsed
        exact ⟨child.value, others.value, child.rest, rfl, ⟨child.below, first⟩,
          ⟨others.below, second⟩⟩
      · intro found
        obtain ⟨child, others, middle, rfl, ⟨firstBelow, first⟩, ⟨secondBelow, second⟩⟩ := found
        refine ⟨by omega, ?_⟩
        rw [first]
        simp only [Bind.bind, Except.bind, second]

theorem accepts_map_iff {limit wider : Nat} {α β : Type} (f : α → β)
    (change : Parsed limit α → Parsed wider β) (values : ∀ parsed, (change parsed).value = f parsed.value)
    (rests : ∀ parsed, (change parsed).rest = parsed.rest)
    (result : Except QueryError (Parsed limit α)) (value : β) (rest : List Token) :
    Accepts (result.map change) value rest ↔ ∃ a, Accepts result a rest ∧ value = f a := by
  cases result with
  | error err =>
      exact iff_of_false (not_accepts_error _ _ _)
        fun found => not_accepts_error _ _ _ found.choose_spec.1
  | ok parsed =>
      rw [Except.map, accepts_ok_iff, values, rests]
      simp only [accepts_ok_iff]
      constructor
      · intro both
        exact ⟨parsed.value, ⟨rfl, both.2⟩, both.1.symm⟩
      · intro found
        obtain ⟨a, ⟨same, left⟩, means⟩ := found
        exact ⟨(congrArg f same).trans means.symm, left⟩

theorem accepts_tag_iff (build : TagId → Types.Query) (tokens : List Token) (query : Types.Query)
    (rest : List Token) :
    Accepts ((parseNameAsTag printer resolver total tokens).map (·.loosen build)) query rest ↔
      ∃ token tag, tokens = token :: rest ∧ Name resolver token tag ∧ query = build tag := by
  rw [accepts_map_iff build _ (fun _ => rfl) (fun _ => rfl)]
  simp only [accepts_name_iff]
  constructor
  · intro found
    obtain ⟨tag, ⟨token, shape, name⟩, same⟩ := found
    exact ⟨token, tag, shape, name, same⟩
  · intro found
    obtain ⟨token, tag, shape, name, same⟩ := found
    exact ⟨tag, ⟨token, shape, name⟩, same⟩

theorem accepts_attr_iff (tokens : List Token) (query : Types.Query) (rest : List Token) :
    Accepts (parseBody printer resolver total "attr" tokens) query rest ↔
      ∃ token key op literal value,
        tokens = token :: .word (cmpToStr op) :: literal :: rest ∧ Name resolver token key ∧
          Literal printer literal value ∧ query = .hasAttr key op value := by
  have head : headOf "attr" = some .attr := by decide
  constructor
  · intro accepted
    obtain ⟨below, parsed⟩ := accepted
    rw [parseBody, head] at parsed
    obtain ⟨key, first, parsed⟩ := (bind_ok_iff _ _ _).mp parsed
    obtain ⟨word, second, parsed⟩ := (bind_ok_iff _ _ _).mp parsed
    obtain ⟨token, keyShape, name⟩ := (accepts_name_iff printer resolver total tokens key.value
      key.rest).mp ⟨key.below, first⟩
    have wordShape := (accepts_word_iff printer total key.rest word.value word.rest).mp
      ⟨word.below, second⟩
    cases known : cmpOf word.value with
    | none =>
        rw [known] at parsed
        cases parsed
    | some op =>
        rw [known] at parsed
        obtain ⟨value, third, parsed⟩ := (bind_ok_iff _ _ _).mp parsed
        cases parsed
        obtain ⟨literal, valueShape, means⟩ := (accepts_value_iff printer total word.rest value.value
          value.rest).mp ⟨value.below, third⟩
        rw [cmp_to_str_of_cmp_of word.value op known] at wordShape
        refine ⟨token, key.value, op, literal, value.value, ?_, name, means, rfl⟩
        exact keyShape.trans (congrArg _ (wordShape.trans (congrArg _ valueShape)))
  · intro found
    obtain ⟨token, key, op, literal, value, rfl, name, means, rfl⟩ := found
    obtain ⟨keyBelow, first⟩ := (accepts_name_iff printer resolver total _ key
      (.word (cmpToStr op) :: literal :: rest)).mpr ⟨token, rfl, name⟩
    obtain ⟨wordBelow, second⟩ := (accepts_word_iff printer total _ (cmpToStr op)
      (literal :: rest)).mpr rfl
    obtain ⟨valueBelow, third⟩ := (accepts_value_iff printer total _ value rest).mpr
      ⟨literal, rfl, means⟩
    refine ⟨by omega, ?_⟩
    rw [parseBody]
    simp only [head, first, second, third, cmp_of_cmp_to_str, Bind.bind, Except.bind]

theorem accepts_related_iff (tokens : List Token) (query : Types.Query) (rest : List Token) :
    Accepts (parseBody printer resolver total "related" tokens) query rest ↔
      ∃ token predicate target, tokens = token :: .objId target :: rest ∧
        Name resolver token predicate ∧ query = .related predicate target := by
  have head : headOf "related" = some .related := by decide
  constructor
  · intro accepted
    obtain ⟨below, parsed⟩ := accepted
    rw [parseBody, head] at parsed
    obtain ⟨predicate, first, parsed⟩ := (bind_ok_iff _ _ _).mp parsed
    obtain ⟨target, second, parsed⟩ := (bind_ok_iff _ _ _).mp parsed
    cases parsed
    obtain ⟨token, nameShape, name⟩ := (accepts_name_iff printer resolver total tokens
      predicate.value predicate.rest).mp ⟨predicate.below, first⟩
    have targetShape := (accepts_object_id_iff printer total predicate.rest target.value
      target.rest).mp ⟨target.below, second⟩
    exact ⟨token, predicate.value, target.value, nameShape.trans (congrArg _ targetShape), name, rfl⟩
  · intro found
    obtain ⟨token, predicate, target, rfl, name, rfl⟩ := found
    obtain ⟨nameBelow, first⟩ := (accepts_name_iff printer resolver total _ predicate
      (.objId target :: rest)).mpr ⟨token, rfl, name⟩
    obtain ⟨targetBelow, second⟩ := (accepts_object_id_iff printer total _ target rest).mpr rfl
    refine ⟨by omega, ?_⟩
    rw [parseBody]
    simp only [head, first, second, Bind.bind, Except.bind]

theorem accepts_list_iff (build : List Types.Query → Types.Query) (tokens : List Token)
    (query : Types.Query) (rest : List Token) :
    Accepts ((parseChildren printer resolver total tokens).map fun children =>
        ({ value := build children.value, rest := children.rest, below := children.below } :
          Parsed (tokens.length + 1) Types.Query)) query rest ↔
      ∃ children, Accepts (parseChildren printer resolver total tokens) children rest ∧
        query = build children :=
  accepts_map_iff build _ (fun _ => rfl) (fun _ => rfl) _ query rest

/-- What each operator word stands for. -/
def headWord : Head → String
  | .tag => "tag"
  | .isa => "isa"
  | .attr => "attr"
  | .related => "related"
  | .and => "and"
  | .or => "or"
  | .not => "not"

private theorem head_of_word (word : String) (head : Head) (found : headOf word = some head) :
    word = headWord head := by
  rw [headOf] at found
  split_ifs at found with tag isa attr related and or not
  all_goals
    cases found
    assumption

end

section

variable {printer : Printer} {resolver : String → Option TagId} {total : Nat}

/-- What is read of the tokens is an atom for the query. -/
def AtomSound (printer : Printer) (resolver : String → Option TagId) (total : Nat)
    (tokens : List Token) : Prop :=
  ∀ query rest, Accepts (parseAtom printer resolver total tokens) query rest →
    ∃ consumed, tokens = consumed ++ rest ∧ Atom (Literal printer) resolver query consumed

def ChildrenSound (printer : Printer) (resolver : String → Option TagId) (total : Nat)
    (tokens : List Token) : Prop :=
  ∀ children rest, Accepts (parseChildren printer resolver total tokens) children rest →
    ∃ consumed, tokens = consumed ++ rest ∧ Children (Literal printer) resolver children consumed

def BodySound (printer : Printer) (resolver : String → Option TagId) (total : Nat)
    (tokens : List Token) : Prop :=
  ∀ head query rest, Accepts (parseBody printer resolver total head tokens) query rest →
    ∃ consumed, tokens = consumed ++ rest ∧
      Arguments (Literal printer) resolver head query consumed

private theorem body_sound (tokens : List Token) (atoms : AtomSound printer resolver total tokens)
    (lists : ChildrenSound printer resolver total tokens) :
    BodySound printer resolver total tokens := by
  intro head query rest accepted
  cases found : headOf head with
  | none =>
      rw [parseBody, found] at accepted
      exact absurd accepted (not_accepts_error _ _ _)
  | some kind =>
      have word := head_of_word head kind found
      rw [word] at accepted ⊢
      cases kind with
      | tag =>
          rw [parseBody, ← word, found] at accepted
          obtain ⟨token, tag, shape, name, same⟩ :=
            (accepts_tag_iff printer resolver total .hasTag tokens query rest).mp accepted
          rw [same]
          exact ⟨[token], shape, .tag token tag name⟩
      | isa =>
          rw [parseBody, ← word, found] at accepted
          obtain ⟨token, tag, shape, name, same⟩ :=
            (accepts_tag_iff printer resolver total .isA tokens query rest).mp accepted
          rw [same]
          exact ⟨[token], shape, .isa token tag name⟩
      | attr =>
          obtain ⟨token, key, op, literal, value, shape, name, means, same⟩ :=
            (accepts_attr_iff printer resolver total tokens query rest).mp accepted
          rw [same]
          exact ⟨_, shape, .attr token key op literal value name means⟩
      | related =>
          obtain ⟨token, predicate, target, shape, name, same⟩ :=
            (accepts_related_iff printer resolver total tokens query rest).mp accepted
          rw [same]
          exact ⟨_, shape, .related token predicate target name⟩
      | and =>
          rw [parseBody, ← word, found] at accepted
          obtain ⟨children, each, same⟩ :=
            (accepts_list_iff printer resolver total .and tokens query rest).mp accepted
          obtain ⟨inner, shape, sentences⟩ := lists children rest each
          rw [same]
          exact ⟨inner, shape, .and children inner sentences⟩
      | or =>
          rw [parseBody, ← word, found] at accepted
          obtain ⟨children, each, same⟩ :=
            (accepts_list_iff printer resolver total .or tokens query rest).mp accepted
          obtain ⟨inner, shape, sentences⟩ := lists children rest each
          rw [same]
          exact ⟨inner, shape, .or children inner sentences⟩
      | not =>
          rw [parseBody, ← word, found] at accepted
          obtain ⟨child, each, same⟩ := (accepts_map_iff .not (·.loosen .not) (fun _ => rfl)
            (fun _ => rfl) (parseAtom printer resolver total tokens) query rest).mp accepted
          obtain ⟨inner, shape, sentence⟩ := atoms child rest each
          rw [same]
          exact ⟨inner, shape, .not child inner sentence⟩

private theorem children_sound (tokens : List Token)
    (atoms : AtomSound printer resolver total tokens)
    (shorter : ∀ later, later.length < tokens.length →
      ChildrenSound printer resolver total later) :
    ChildrenSound printer resolver total tokens := by
  intro children rest accepted
  cases (accepts_children_iff printer resolver total tokens children rest).mp accepted with
  | inl ended =>
      obtain ⟨-, none_, same⟩ := ended
      rw [none_, same]
      exact ⟨[], rfl, .nil⟩
  | inr going =>
      obtain ⟨-, child, others, middle, same, first, later⟩ := going
      have below : middle.length < tokens.length := first.choose
      obtain ⟨consumed, shape, atom⟩ := atoms child middle first
      obtain ⟨more, remaining, sentences⟩ := shorter middle below others rest later
      rw [same, shape, remaining]
      exact ⟨consumed ++ more, (List.append_assoc _ _ _).symm,
        .cons child others consumed more atom sentences⟩

theorem atom_sound (tokens : List Token)
    (shorter : ∀ later, later.length < tokens.length → BodySound printer resolver total later) :
    AtomSound printer resolver total tokens := by
  intro query rest accepted
  obtain ⟨head, arguments, shape, body⟩ :=
    (accepts_atom_iff printer resolver total tokens query rest).mp accepted
  have below : arguments.length < tokens.length := by
    rw [shape, List.length_cons, List.length_cons]
    omega
  obtain ⟨inner, same, sentence⟩ := shorter arguments below head query (.rParen :: rest) body
  rw [shape, same]
  exact ⟨.lParen :: .word head :: (inner ++ [.rParen]), by simp, .parens head query inner sentence⟩

theorem parser_sound (tokens : List Token) :
    AtomSound printer resolver total tokens ∧ ChildrenSound printer resolver total tokens ∧
      BodySound printer resolver total tokens := by
  have all : ∀ size (tokens : List Token), tokens.length < size →
      AtomSound printer resolver total tokens ∧ ChildrenSound printer resolver total tokens ∧
        BodySound printer resolver total tokens := by
    intro size
    induction size with
    | zero =>
        intro tokens below
        exact absurd below (Nat.not_lt_zero _)
    | succ size ih =>
        intro tokens below
        have atoms : AtomSound printer resolver total tokens :=
          atom_sound tokens fun later less => (ih later (by omega)).2.2
        have lists : ChildrenSound printer resolver total tokens :=
          children_sound tokens atoms fun later less => (ih later (by omega)).2.1
        exact ⟨atoms, lists, body_sound tokens atoms lists⟩
  exact all (tokens.length + 1) tokens (Nat.lt_succ_self _)

/-- A sentence is read to its end. -/
def Complete (printer : Printer) (resolver : String → Option TagId) (total : Nat)
    (query : Types.Query) : Prop :=
  ∀ consumed rest, Atom (Literal printer) resolver query consumed →
    Accepts (parseAtom printer resolver total (consumed ++ rest)) query rest

private theorem children_complete (children : List Types.Query)
    (each : ∀ child ∈ children, Complete printer resolver total child) :
    ∀ consumed rest, Children (Literal printer) resolver children consumed → atEnd rest = true →
      Accepts (parseChildren printer resolver total (consumed ++ rest)) children rest := by
  induction children with
  | nil =>
      intro consumed rest sentences ended
      cases sentences
      exact (accepts_children_iff printer resolver total _ [] rest).mpr (Or.inl ⟨ended, rfl, rfl⟩)
  | cons child others ih =>
      intro consumed rest sentences ended
      cases sentences with
      | cons _ _ first more atom later =>
          have started : atEnd (first ++ more ++ rest) = false := by
            cases atom
            rfl
          have whole := each child List.mem_cons_self first (more ++ rest) atom
          rw [← List.append_assoc] at whole
          apply (accepts_children_iff printer resolver total _ _ rest).mpr
          exact Or.inr ⟨started, child, others, more ++ rest, rfl, whole,
            ih (fun other member => each other (List.mem_cons_of_mem child member)) more rest later
              ended⟩

/-- An atom is read to its end when its arguments are, up to a closing parenthesis. -/
theorem complete_of_body (query : Types.Query)
    (body : ∀ head inner rest, Arguments (Literal printer) resolver head query inner →
      atEnd rest = true →
      Accepts (parseBody printer resolver total head (inner ++ rest)) query rest) :
    Complete printer resolver total query := by
  intro consumed rest atom
  cases atom with
  | parens head _ inner arguments =>
      apply (accepts_atom_iff printer resolver total _ query rest).mpr
      refine ⟨head, inner ++ .rParen :: rest, by simp, ?_⟩
      exact body head inner (.rParen :: rest) arguments rfl

theorem parser_complete (query : Types.Query) : Complete printer resolver total query := by
  induction query using Types.Query.tree_induction with
  | hasTag tag =>
      apply complete_of_body
      intro head inner rest arguments _
      cases arguments with
      | tag token _ name =>
          rw [parseBody]
          exact (accepts_tag_iff printer resolver total .hasTag _ _ rest).mpr
            ⟨token, tag, rfl, name, rfl⟩
  | isA tag =>
      apply complete_of_body
      intro head inner rest arguments _
      cases arguments with
      | isa token _ name =>
          rw [parseBody]
          exact (accepts_tag_iff printer resolver total .isA _ _ rest).mpr
            ⟨token, tag, rfl, name, rfl⟩
  | hasAttr key op value =>
      apply complete_of_body
      intro head inner rest arguments _
      cases arguments with
      | attr token _ _ literal _ name means =>
          exact (accepts_attr_iff printer resolver total _ _ rest).mpr
            ⟨token, key, op, literal, value, rfl, name, means, rfl⟩
  | related predicate target =>
      apply complete_of_body
      intro head inner rest arguments _
      cases arguments with
      | related token _ _ name =>
          exact (accepts_related_iff printer resolver total _ _ rest).mpr
            ⟨token, predicate, target, rfl, name, rfl⟩
  | and children ih =>
      apply complete_of_body
      intro head inner rest arguments ended
      cases arguments with
      | and _ _ each =>
          rw [parseBody]
          exact (accepts_list_iff printer resolver total .and _ _ rest).mpr
            ⟨children, children_complete children ih inner rest each ended, rfl⟩
  | or children ih =>
      apply complete_of_body
      intro head inner rest arguments ended
      cases arguments with
      | or _ _ each =>
          rw [parseBody]
          exact (accepts_list_iff printer resolver total .or _ _ rest).mpr
            ⟨children, children_complete children ih inner rest each ended, rfl⟩
  | not child ih =>
      apply complete_of_body
      intro head inner rest arguments _
      cases arguments with
      | not _ _ atom =>
          rw [parseBody]
          exact (accepts_map_iff Types.Query.not (Parsed.loosen Types.Query.not) (fun _ => rfl)
            (fun _ => rfl) _ _ rest).mpr ⟨child, ih inner rest atom, rfl⟩

theorem parse_atom_iff (tokens : List Token) (query : Types.Query) (rest : List Token) :
    Accepts (parseAtom printer resolver total tokens) query rest ↔
      ∃ consumed, tokens = consumed ++ rest ∧ Atom (Literal printer) resolver query consumed := by
  constructor
  · exact (parser_sound tokens).1 query rest
  · intro found
    obtain ⟨consumed, shape, atom⟩ := found
    rw [shape]
    exact parser_complete query consumed rest atom

/-- No two atoms start a list of tokens. -/
theorem atoms_unique (tokens consumed consumed' rest rest' : List Token)
    (query query' : Types.Query) (shape : tokens = consumed ++ rest)
    (shape' : tokens = consumed' ++ rest') (atom : Atom (Literal printer) resolver query consumed)
    (atom' : Atom (Literal printer) resolver query' consumed') :
    consumed = consumed' ∧ query = query' := by
  obtain ⟨below, parsed⟩ := (@parse_atom_iff printer resolver 0 tokens query rest).mpr
    ⟨consumed, shape, atom⟩
  obtain ⟨below', parsed'⟩ := (@parse_atom_iff printer resolver 0 tokens query' rest').mpr
    ⟨consumed', shape', atom'⟩
  rw [parsed] at parsed'
  cases parsed'
  exact ⟨List.append_cancel_right (shape.symm.trans shape'), rfl⟩

end

private theorem parse_iff (printer : Printer) (input : String) (resolver : String → Option TagId)
    (query : Types.Query) :
    parse printer input resolver = .ok query ↔
      ∃ tokens, tokenize input = .ok tokens ∧ Atom (Literal printer) resolver query tokens := by
  constructor
  · intro returned
    obtain ⟨tokens, read, returned⟩ := (bind_ok_iff _ _ _).mp returned
    obtain ⟨parsed, descended, returned⟩ := (bind_ok_iff _ _ _).mp returned
    refine ⟨tokens, read, ?_⟩
    cases left : parsed.rest with
    | cons token rest =>
        rw [left] at returned
        cases returned
    | nil =>
        rw [left] at returned
        cases returned
        obtain ⟨consumed, shape, atom⟩ := (parse_atom_iff tokens parsed.value parsed.rest).mp
          ⟨parsed.below, descended⟩
        rw [left, List.append_nil] at shape
        rw [← shape] at atom
        exact atom
  · intro found
    obtain ⟨tokens, read, atom⟩ := found
    obtain ⟨below, descended⟩ :=
      (@parse_atom_iff printer resolver tokens.length tokens query []).mpr
        ⟨tokens, (List.append_nil tokens).symm, atom⟩
    unfold parse
    simp only [read, descended, Bind.bind, Except.bind]

/-- The parser reads just the sentences of the grammar with bare words for values: whatever starts
a list of tokens, it is one atom at most and denotes one query, and no token may be left behind a
whole query. -/
theorem parser_accepts_grammar (printer : Printer) (resolver : String → Option TagId) :
    (∀ total tokens query rest,
      Accepts (parseAtom printer resolver total tokens) query rest ↔
        ∃ consumed, tokens = consumed ++ rest ∧ Atom (Literal printer) resolver query consumed) ∧
      (∀ tokens consumed consumed' rest rest' query query', tokens = consumed ++ rest →
        tokens = consumed' ++ rest' → Atom (Literal printer) resolver query consumed →
        Atom (Literal printer) resolver query' consumed' →
        consumed = consumed' ∧ query = query') ∧
      ∀ input query, parse printer input resolver = .ok query ↔
        ∃ tokens, tokenize input = .ok tokens ∧ Atom (Literal printer) resolver query tokens :=
  ⟨fun _ => parse_atom_iff, atoms_unique, fun input => parse_iff printer input resolver⟩

theorem comparison_literal (value : Token → Value → Prop) (resolver : String → Option TagId)
    (query : Types.Query) (name word literal : Token)
    (atom : Atom value resolver query [.lParen, .word "attr", name, word, literal, .rParen]) :
    ∃ read, value literal read := by
  generalize shape : [Token.lParen, .word "attr", name, word, literal, .rParen] = tokens at atom
  cases atom with
  | parens head _ inner arguments =>
      simp only [List.cons.injEq, Token.word.injEq, true_and] at shape
      obtain ⟨operator, rest⟩ := shape
      have inside : [name, word, literal] = inner :=
        List.append_cancel_right (show [name, word, literal] ++ [Token.rParen] = _ from rest)
      cases arguments with
      | attr token key op last read named means =>
          cases inside
          exact ⟨read, means⟩
      | _ => exact absurd operator (by decide)

/-- The written grammar has an identifier for a value, which the parser refuses, and no bare word,
which the parser takes. -/
theorem written_values_differ :
    let identifier : List Token :=
      [.lParen, .word "attr", .word "year", .word "=", .atId 5, .rParen]
    let bare : List Token :=
      [.lParen, .word "attr", .word "year", .word "=", .word "soon", .rParen]
    ((∃ query, Atom (WrittenLiteral plainPrinter) yearTag query identifier) ∧
        ¬ ∃ query, Accepts (parseAtom plainPrinter yearTag 6 identifier) query []) ∧
      Accepts (parseAtom plainPrinter yearTag 6 bare) (.hasAttr 10 .eq (.text "soon")) [] ∧
        ¬ ∃ query, Atom (WrittenLiteral plainPrinter) yearTag query bare := by
  intro identifier bare
  have year : Name yearTag (.word "year") 10 := .word "year" 10 (by decide)
  have noNumber : parseI64 "soon".toList = none := by decide
  refine ⟨⟨?_, ?_⟩, ?_, ?_⟩
  · exact ⟨.hasAttr 10 .eq (.int 5), .parens "attr" _ [.word "year", .word "=", .atId 5]
      (.attr (.word "year") 10 .eq (.atId 5) (.int 5) year (.id 5 (.int 5)))⟩
  · intro found
    obtain ⟨query, accepted⟩ := found
    obtain ⟨consumed, shape, atom⟩ := (parse_atom_iff identifier query []).mp accepted
    rw [List.append_nil] at shape
    rw [← shape] at atom
    obtain ⟨read, means⟩ := comparison_literal _ _ query _ _ _ atom
    cases means
  · exact (parse_atom_iff bare _ []).mpr ⟨bare, rfl, .parens "attr" _
      [.word "year", .word "=", .word "soon"] (.attr (.word "year") 10 .eq (.word "soon")
        (.text "soon") year (.bare "soon" noNumber rfl))⟩
  · intro found
    obtain ⟨query, atom⟩ := found
    obtain ⟨read, means⟩ := comparison_literal _ _ query _ _ _ atom
    cases means with
    | integer _ number reads =>
        rw [noNumber] at reads
        cases reads
    | float _ bits reads => cases reads

end Mimisbrunnr.Query
