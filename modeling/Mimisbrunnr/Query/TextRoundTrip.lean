import Mimisbrunnr.Query.Scanning

/-!
# Reading back printed queries

Recursive descent rebuilds a query from its tokens if all its tags have names,
and refuses them otherwise. What comes back is the query, except that the bytes
of a text have become its characters.
-/

namespace Mimisbrunnr.Query

set_option autoImplicit false

open Mimisbrunnr.Lib.Text
open Mimisbrunnr.Types

def rereadValue : Value → Value
  | .text string => .text (String.ofList (bytewise string.toList))
  | other => other

mutual

/-- The query with every text replaced by its bytes. -/
def reread : Types.Query → Types.Query
  | .hasAttr key op value => .hasAttr key op (rereadValue value)
  | .and children => .and (rereadAll children)
  | .or children => .or (rereadAll children)
  | .not child => .not (reread child)
  | leaf => leaf

def rereadAll : List Types.Query → List Types.Query
  | [] => []
  | child :: rest => reread child :: rereadAll rest

end

def AsciiTexts (query : Types.Query) : Prop :=
  ∀ text, Value.text text ∈ query.values → text.toList.all isAscii = true

private theorem reread_all_eq_iff (children : List Types.Query)
    (each : ∀ child ∈ children, (reread child = child ↔ AsciiTexts child)) :
    rereadAll children = children ↔ ∀ child ∈ children, AsciiTexts child := by
  induction children with
  | nil => simp [rereadAll]
  | cons child rest ih =>
      rw [rereadAll, List.cons.injEq, List.forall_mem_cons, each child List.mem_cons_self,
        ih fun other member => each other (List.mem_cons_of_mem _ member)]

private theorem ascii_texts_and (children : List Types.Query) :
    AsciiTexts (.and children) ↔ ∀ child ∈ children, AsciiTexts child := by
  simp only [AsciiTexts, Types.Query.values,
    Types.Query.mem_collect_and Types.Query.ownValues children rfl]
  exact ⟨fun all child member text inside => all text ⟨child, member, inside⟩,
    fun each text ⟨child, member, inside⟩ => each child member text inside⟩

private theorem ascii_texts_or (children : List Types.Query) :
    AsciiTexts (.or children) ↔ ∀ child ∈ children, AsciiTexts child := by
  simp only [AsciiTexts, Types.Query.values,
    Types.Query.mem_collect_or Types.Query.ownValues children rfl]
  exact ⟨fun all child member text inside => all text ⟨child, member, inside⟩,
    fun each text ⟨child, member, inside⟩ => each child member text inside⟩

private theorem reread_value_eq_iff (value : Value) :
    rereadValue value = value ↔ ∀ text, Value.text text = value → text.toList.all isAscii = true := by
  match value with
  | .text string =>
      have back : String.ofList (bytewise string.toList) = string ↔
          bytewise string.toList = string.toList := by
        rw [← String.toList_inj, String.toList_ofList]
      simp only [rereadValue, Value.text.injEq, forall_eq, back]
      exact bytewise_eq_iff string.toList
  | .int _ => simp [rereadValue]
  | .float _ => simp [rereadValue]
  | .timestamp _ => simp [rereadValue]
  | .blob _ => simp [rereadValue]
  | .scoped _ _ => simp [rereadValue]

theorem reread_eq_iff (query : Types.Query) : reread query = query ↔ AsciiTexts query := by
  induction query using Types.Query.tree_induction with
  | hasTag tag => exact iff_of_true rfl (by rintro text ⟨⟩)
  | isA tag => exact iff_of_true rfl (by rintro text ⟨⟩)
  | related predicate target => exact iff_of_true rfl (by rintro text ⟨⟩)
  | hasAttr key op value =>
      rw [reread, Types.Query.hasAttr.injEq, reread_value_eq_iff]
      simp [AsciiTexts, Types.Query.values, Types.Query.collect, Types.Query.ownValues]
  | and children ih =>
      rw [reread, Types.Query.and.injEq, reread_all_eq_iff children ih, ascii_texts_and]
  | or children ih =>
      rw [reread, Types.Query.or.injEq, reread_all_eq_iff children ih, ascii_texts_or]
  | not child ih =>
      rw [reread, Types.Query.not.injEq, ih]
      simp [AsciiTexts, Types.Query.values, Types.Query.collect, Types.Query.ownValues]

def Accepts {limit : Nat} {α : Type} (result : Except QueryError (Parsed limit α)) (value : α)
    (rest : List Token) : Prop :=
  ∃ below, result = .ok { value := value, rest := rest, below := below }

def Fails {α : Type} (result : Except QueryError α) : Prop := ∃ err, result = .error err

section Descent

variable {printer : Printer} {resolver : String → Option TagId} {total : Nat}
  {nameLookup : TagId → String}

theorem parse_atom_accepts (head : String) (arguments rest : List Token) (value : Types.Query)
    (body : Accepts (parseBody printer resolver total head arguments) value (.rParen :: rest)) :
    Accepts (parseAtom printer resolver total (.lParen :: .word head :: arguments)) value rest := by
  obtain ⟨below, parsed⟩ := body
  simp only [List.length_cons] at below
  refine ⟨by simp only [List.length_cons]; omega, ?_⟩
  rw [parseAtom]
  simp only [expect, operatorName, readToken, Bind.bind, Except.bind, if_true, parsed]

private theorem parse_atom_fails (head : String) (arguments : List Token)
    (body : Fails (parseBody printer resolver total head arguments)) :
    Fails (parseAtom printer resolver total (.lParen :: .word head :: arguments)) := by
  obtain ⟨err, failed⟩ := body
  refine ⟨err, ?_⟩
  rw [parseAtom]
  simp only [expect, operatorName, readToken, Bind.bind, Except.bind, if_true, failed]

theorem read_token_accepts {α : Type} (refusal eof : String)
    (read : Token → Option (Except QueryError α)) (token : Token) (rest : List Token) (value : α)
    (known : read token = some (.ok value)) :
    Accepts (readToken printer total refusal eof read (token :: rest)) value rest := by
  refine ⟨Nat.lt_succ_self _, ?_⟩
  rw [readToken]
  simp only [known]

theorem parse_name_accepts (printer : Printer) (total : Nat) (tag : TagId) (rest : List Token)
    (written : WrittenAs resolver tag (nameLookup tag)) (named : nameLookup tag ≠ "") :
    Accepts (parseNameAsTag printer resolver total (nameTokens nameLookup tag ++ rest)) tag rest := by
  have some_ : (nameLookup tag).toList ≠ [] := by
    rwa [Ne, String.toList_eq_nil_iff]
  rw [nameTokens, if_neg some_]
  cases written with
  | raw same =>
      rw [same, List.head?_cons, if_pos rfl]
      exact ⟨Nat.lt_succ_self _, rfl⟩
  | word plain noAt noObj back =>
      rw [if_neg noAt]
      exact read_token_accepts _ _ _ _ rest tag (by simp only [back])

theorem name_tokens_empty (tag : TagId) (unnamed : nameLookup tag = "") :
    nameTokens nameLookup tag = [] := by
  rw [nameTokens, unnamed]
  exact if_pos rfl

/-- The one-argument operators. -/
theorem parse_tag_body (printer : Printer) (total : Nat) (head : String)
    (build : TagId → Types.Query) (tag : TagId)
    (rest : List Token)
    (body : ∀ tokens, parseBody printer resolver total head tokens =
      (parseNameAsTag printer resolver total tokens).map (·.loosen build))
    (written : WrittenAs resolver tag (nameLookup tag)) :
    (nameLookup tag ≠ "" → Accepts (parseBody printer resolver total head
        (nameTokens nameLookup tag ++ .rParen :: rest)) (build tag) (.rParen :: rest)) ∧
      (nameLookup tag = "" → Fails (parseBody printer resolver total head
        (nameTokens nameLookup tag ++ .rParen :: rest))) := by
  rw [body]
  constructor
  · intro named
    obtain ⟨below, parsed⟩ := parse_name_accepts printer total tag
      (.rParen :: rest) written named
    rw [parsed]
    exact ⟨Nat.lt_succ_of_lt below, rfl⟩
  · intro unnamed
    rw [name_tokens_empty tag unnamed]
    exact ⟨_, rfl⟩

theorem cmp_of_cmp_to_str (op : CmpOp) : cmpOf (cmpToStr op) = some op := by
  cases op <;> decide

theorem cmp_to_str_of_cmp_of (word : String) (op : CmpOp) (found : cmpOf word = some op) :
    word = cmpToStr op := by
  rw [cmpOf] at found
  split_ifs at found with eq ne lt le gt ge startsWith contains
  all_goals
    cases found
    assumption

theorem cmp_of_show_i64 (number : Int64) : cmpOf (String.ofList (showI64 number)) = none := by
  have numeric : (showI64 number).all (fun char => char = '-' || char.isDigit) = true := by
    rw [List.all_eq_true]
    intro char member
    rcases show_i64_chars number char member with rfl | digit
    · decide
    · simp [Nat.isDigit_of_mem_toDigits (by decide) (by decide) digit]
  rcases found : cmpOf (String.ofList (showI64 number)) with _ | op
  · rfl
  · have same := congrArg String.toList (cmp_to_str_of_cmp_of _ op found)
    rw [String.toList_ofList] at same
    rw [same] at numeric
    cases op <;> exact absurd numeric (by decide)

private theorem parse_value_accepts (printer : Printer) (total : Nat) (value : Value)
    (supported : isIntOrText value = true)
    (rest : List Token) :
    Accepts (parseValue printer total (valueTokens value ++ rest)) (rereadValue value) rest := by
  match value, supported with
  | .int number, _ =>
      exact read_token_accepts _ _ _ _ rest (Value.int number)
        (by simp only [String.toList_ofList, parse_show_i64])
  | .text string, _ => exact ⟨Nat.lt_succ_self _, rfl⟩

private theorem parse_attr_body (key : TagId) (op : CmpOp) (value : Value) (rest : List Token)
    (written : WrittenAs resolver key (nameLookup key)) (supported : isIntOrText value = true)
    (named : nameLookup key ≠ "") :
    Accepts (parseBody printer resolver total "attr" (nameTokens nameLookup key ++
      ([.word (cmpToStr op)] ++ (valueTokens value ++ .rParen :: rest))))
      (.hasAttr key op (rereadValue value)) (.rParen :: rest) := by
  obtain ⟨keyBelow, keyParsed⟩ := parse_name_accepts printer total key
    ([.word (cmpToStr op)] ++ (valueTokens value ++ .rParen :: rest)) written named
  obtain ⟨valueBelow, valueParsed⟩ := parse_value_accepts printer total
    value supported (.rParen :: rest)
  obtain ⟨wordBelow, wordParsed⟩ : Accepts (expectWord printer total
      ([Token.word (cmpToStr op)] ++ (valueTokens value ++ Token.rParen :: rest))) (cmpToStr op)
      (valueTokens value ++ Token.rParen :: rest) := ⟨Nat.lt_succ_self _, rfl⟩
  refine ⟨by omega, ?_⟩
  rw [parseBody]
  simp only [show headOf "attr" = some .attr from by decide, keyParsed, wordParsed, Bind.bind,
    Except.bind, cmp_of_cmp_to_str, valueParsed]

theorem parse_attr_body_fails (key : TagId) (op : CmpOp) (value : Value) (rest : List Token)
    (supported : isIntOrText value = true) (unnamed : nameLookup key = "") :
    Fails (parseBody printer resolver total "attr" (nameTokens nameLookup key ++
      ([.word (cmpToStr op)] ++ (valueTokens value ++ .rParen :: rest)))) := by
  rw [name_tokens_empty key unnamed, List.nil_append, List.singleton_append, parseBody]
  simp only [show headOf "attr" = some .attr from by decide, parseNameAsTag, readToken]
  rcases resolver (cmpToStr op) with _ | tag
  · exact ⟨_, rfl⟩
  · cases value with
    | int number =>
        simp only [valueTokens, List.singleton_append, expectWord, readToken, Bind.bind, Except.bind,
          cmp_of_show_i64]
        exact ⟨_, rfl⟩
    | text string => exact ⟨_, rfl⟩
    | _ => exact absurd supported Bool.false_ne_true

private theorem parse_related_body (predicate : TagId) (target : ObjectId) (rest : List Token)
    (written : WrittenAs resolver predicate (nameLookup predicate))
    (named : nameLookup predicate ≠ "") :
    Accepts (parseBody printer resolver total "related" (nameTokens nameLookup predicate ++
      ([.objId target] ++ .rParen :: rest))) (.related predicate target) (.rParen :: rest) := by
  obtain ⟨nameBelow, parsed⟩ := parse_name_accepts printer total predicate
    ([.objId target] ++ .rParen :: rest) written named
  obtain ⟨targetBelow, targetParsed⟩ : Accepts (expectObjectId printer total
      ([Token.objId target] ++ Token.rParen :: rest)) target (Token.rParen :: rest) :=
    ⟨Nat.lt_succ_self _, rfl⟩
  refine ⟨by omega, ?_⟩
  rw [parseBody]
  simp only [show headOf "related" = some .related from by decide, parsed, targetParsed, Bind.bind,
    Except.bind]

private theorem parse_related_body_fails (predicate : TagId) (target : ObjectId) (rest : List Token)
    (unnamed : nameLookup predicate = "") :
    Fails (parseBody printer resolver total "related" (nameTokens nameLookup predicate ++
      ([.objId target] ++ .rParen :: rest))) := by
  rw [name_tokens_empty predicate unnamed, List.nil_append, List.singleton_append, parseBody]
  exact ⟨_, rfl⟩

def Named (nameLookup : TagId → String) (query : Types.Query) : Prop :=
  ∀ tag ∈ query.tags, nameLookup tag ≠ ""

/-- The tokens of a query are parsed if its tags have names and refused otherwise. -/
def Descends (printer : Printer) (resolver : String → Option TagId) (total : Nat)
    (nameLookup : TagId → String) (query : Types.Query) : Prop :=
  ∀ rest,
    (Named nameLookup query → Accepts (parseAtom printer resolver total
      (tokensOf nameLookup query ++ rest)) (reread query) rest) ∧
    (¬ Named nameLookup query → Fails (parseAtom printer resolver total
      (tokensOf nameLookup query ++ rest)))

theorem tokens_not_at_end (query : Types.Query) (rest : List Token) :
    atEnd (tokensOf nameLookup query ++ rest) = false := by
  cases query <;> rw [tokensOf] <;> rfl

private theorem parse_children_accepts (children : List Types.Query) (rest : List Token)
    (each : ∀ child ∈ children, Descends printer resolver total nameLookup child)
    (named : ∀ child ∈ children, Named nameLookup child) :
    Accepts (parseChildren printer resolver total
      (tokensOfAll nameLookup children ++ .rParen :: rest)) (rereadAll children)
      (.rParen :: rest) := by
  induction children with
  | nil =>
      rw [tokensOfAll, List.nil_append, parseChildren, rereadAll]
      exact ⟨Nat.lt_succ_self _, rfl⟩
  | cons child others ih =>
      obtain ⟨childBelow, childParsed⟩ := (each child List.mem_cons_self
        (tokensOfAll nameLookup others ++ .rParen :: rest)).1 (named child List.mem_cons_self)
      obtain ⟨othersBelow, othersParsed⟩ :=
        ih (fun other member => each other (List.mem_cons_of_mem _ member))
          fun other member => named other (List.mem_cons_of_mem _ member)
      rw [tokensOfAll, List.append_assoc, parseChildren, rereadAll]
      refine ⟨by omega, ?_⟩
      simp only [tokens_not_at_end, Bool.false_eq_true, if_false, childParsed, othersParsed,
        Bind.bind, Except.bind]

private theorem parse_children_fails (children : List Types.Query) (rest : List Token)
    (each : ∀ child ∈ children, Descends printer resolver total nameLookup child)
    (unnamed : ¬ ∀ child ∈ children, Named nameLookup child) :
    Fails (parseChildren printer resolver total
      (tokensOfAll nameLookup children ++ .rParen :: rest)) := by
  induction children with
  | nil => exact absurd (by simp) unnamed
  | cons child others ih =>
      have first := each child List.mem_cons_self (tokensOfAll nameLookup others ++ .rParen :: rest)
      rw [tokensOfAll, List.append_assoc, parseChildren]
      simp only [tokens_not_at_end, Bool.false_eq_true, if_false]
      by_cases childNamed : Named nameLookup child
      · obtain ⟨below, parsed⟩ := first.1 childNamed
        obtain ⟨err, failed⟩ := ih (fun other member => each other (List.mem_cons_of_mem _ member))
          fun others => unnamed (List.forall_mem_cons.mpr ⟨childNamed, others⟩)
        simp only [parsed, failed, Bind.bind, Except.bind]
        exact ⟨err, rfl⟩
      · obtain ⟨err, failed⟩ := first.2 childNamed
        simp only [failed, Bind.bind, Except.bind]
        exact ⟨err, rfl⟩

private theorem named_and (children : List Types.Query) :
    Named nameLookup (.and children) ↔ ∀ child ∈ children, Named nameLookup child := by
  simp only [Named, Types.Query.tags,
    Types.Query.mem_collect_and Types.Query.ownTags children rfl]
  exact ⟨fun all child member tag inside => all tag ⟨child, member, inside⟩,
    fun each tag ⟨child, member, inside⟩ => each child member tag inside⟩

private theorem named_or (children : List Types.Query) :
    Named nameLookup (.or children) ↔ ∀ child ∈ children, Named nameLookup child := by
  simp only [Named, Types.Query.tags,
    Types.Query.mem_collect_or Types.Query.ownTags children rfl]
  exact ⟨fun all child member tag inside => all tag ⟨child, member, inside⟩,
    fun each tag ⟨child, member, inside⟩ => each child member tag inside⟩

private theorem named_leaf (nameLookup : TagId → String) (query : Types.Query) (tag : TagId)
    (own : query.tags = [tag]) :
    Named nameLookup query ↔ nameLookup tag ≠ "" := by
  simp [Named, own]

/-- A combinator of children is parsed through its list. -/
theorem parse_list_body (head : String) (build : List Types.Query → Types.Query)
    (children : List Types.Query) (rest : List Token)
    (body : ∀ tokens, parseBody printer resolver total head tokens =
      (parseChildren printer resolver total tokens).map fun children =>
        { value := build children.value, rest := children.rest, below := children.below })
    (each : ∀ child ∈ children, Descends printer resolver total nameLookup child) :
    ((∀ child ∈ children, Named nameLookup child) → Accepts (parseBody printer resolver total head
        (tokensOfAll nameLookup children ++ .rParen :: rest)) (build (rereadAll children))
        (.rParen :: rest)) ∧
      ((¬ ∀ child ∈ children, Named nameLookup child) → Fails (parseBody printer resolver total head
        (tokensOfAll nameLookup children ++ .rParen :: rest))) := by
  rw [body]
  constructor
  · intro named
    obtain ⟨below, parsed⟩ := parse_children_accepts children rest each named
    rw [parsed]
    exact ⟨below, rfl⟩
  · intro unnamed
    obtain ⟨err, failed⟩ := parse_children_fails children rest each unnamed
    rw [failed]
    exact ⟨err, rfl⟩

theorem descends_of_body (query : Types.Query) (head : String)
    (arguments : List Token → List Token)
    (shape : ∀ rest, tokensOf nameLookup query ++ rest = .lParen :: .word head :: arguments rest)
    (accepts : ∀ rest, Named nameLookup query → Accepts (parseBody printer resolver total head
      (arguments rest)) (reread query) (.rParen :: rest))
    (fails : ∀ rest, ¬ Named nameLookup query → Fails (parseBody printer resolver total head
      (arguments rest))) :
    Descends printer resolver total nameLookup query := by
  intro rest
  rw [shape]
  exact ⟨fun named => parse_atom_accepts head _ rest _ (accepts rest named),
    fun unnamed => parse_atom_fails head _ (fails rest unnamed)⟩

/-- A leaf is refused only for its one name. -/
theorem descends_of_leaf (query : Types.Query) (tag : TagId) (own : query.tags = [tag])
    (head : String) (arguments : List Token → List Token)
    (shape : ∀ rest, tokensOf nameLookup query ++ rest = .lParen :: .word head :: arguments rest)
    (accepts : ∀ rest, nameLookup tag ≠ "" → Accepts (parseBody printer resolver total head
      (arguments rest)) (reread query) (.rParen :: rest))
    (fails : ∀ rest, nameLookup tag = "" → Fails (parseBody printer resolver total head
      (arguments rest))) :
    Descends printer resolver total nameLookup query := by
  have named_iff := named_leaf nameLookup query tag own
  refine descends_of_body query head arguments shape (fun rest named => ?_) fun rest unnamed => ?_
  · exact accepts rest (named_iff.mp named)
  · exact fails rest (not_not.mp fun named => unnamed (named_iff.mpr named))

theorem query_descends (printer : Printer) (total : Nat) (query : Types.Query)
    (printable : Printable resolver nameLookup query) :
    Descends printer resolver total nameLookup query := by
  induction query using Types.Query.tree_induction with
  | hasTag tag =>
      have body (rest : List Token) := parse_tag_body printer total "tag"
        .hasTag tag rest (fun tokens => by rw [parseBody]; rfl)
        (printable.written tag (List.mem_singleton_self tag))
      exact descends_of_leaf _ tag rfl "tag" _ (fun rest => by rw [tokensOf]; simp)
        (fun rest => (body rest).1) fun rest => (body rest).2
  | isA tag =>
      have body (rest : List Token) := parse_tag_body printer total "isa"
        .isA tag rest (fun tokens => by rw [parseBody]; rfl)
        (printable.written tag (List.mem_singleton_self tag))
      exact descends_of_leaf _ tag rfl "isa" _ (fun rest => by rw [tokensOf]; simp)
        (fun rest => (body rest).1) fun rest => (body rest).2
  | hasAttr key op value =>
      have supported := printable.supported value (List.mem_singleton_self value)
      have written := printable.written key (List.mem_singleton_self key)
      refine descends_of_leaf _ key rfl "attr" (fun rest => nameTokens nameLookup key ++
        ([.word (cmpToStr op)] ++ (valueTokens value ++ .rParen :: rest)))
        (fun rest => by rw [tokensOf]; simp) (fun rest named => ?_) fun rest unnamed => ?_
      · exact parse_attr_body key op value rest written supported named
      · exact parse_attr_body_fails key op value rest supported unnamed
  | related predicate target =>
      have written := printable.written predicate (List.mem_singleton_self predicate)
      refine descends_of_leaf _ predicate rfl "related" (fun rest =>
        nameTokens nameLookup predicate ++ ([.objId target] ++ .rParen :: rest))
        (fun rest => by rw [tokensOf]; simp) (fun rest named => ?_) fun rest unnamed => ?_
      · exact parse_related_body predicate target rest written named
      · exact parse_related_body_fails predicate target rest unnamed
  | and children ih =>
      have each (child : Types.Query) (member : child ∈ children) :=
        ih child member (printable.child fun held => collect_child held children child member _)
      have body (rest : List Token) := parse_list_body "and" .and children rest
        (fun tokens => by rw [parseBody]; rfl) each
      refine descends_of_body _ "and" (fun rest => tokensOfAll nameLookup children ++ .rParen :: rest)
        (fun rest => by rw [tokensOf]; simp) (fun rest named => ?_) fun rest unnamed => ?_
      · exact (body rest).1 ((named_and children).mp named)
      · exact (body rest).2 fun named => unnamed ((named_and children).mpr named)
  | or children ih =>
      have each (child : Types.Query) (member : child ∈ children) :=
        ih child member (printable.child fun held => collect_child held children child member _)
      have body (rest : List Token) := parse_list_body "or" .or children rest
        (fun tokens => by rw [parseBody]; rfl) each
      refine descends_of_body _ "or" (fun rest => tokensOfAll nameLookup children ++ .rParen :: rest)
        (fun rest => by rw [tokensOf]; simp) (fun rest named => ?_) fun rest unnamed => ?_
      · exact (body rest).1 ((named_or children).mp named)
      · exact (body rest).2 fun named => unnamed ((named_or children).mpr named)
  | not child ih =>
      have inner := ih (printable.child fun held => List.subset_append_right _ _)
      have body (tokens : List Token) : parseBody printer resolver total "not" tokens =
          (parseAtom printer resolver total tokens).map (·.loosen .not) := by
        rw [parseBody]
        rfl
      refine descends_of_body _ "not" (fun rest => tokensOf nameLookup child ++ .rParen :: rest)
        (fun rest => by rw [tokensOf]; simp) (fun rest named => ?_) fun rest unnamed => ?_
      · obtain ⟨below, parsed⟩ := (inner (.rParen :: rest)).1 named
        rw [body, parsed]
        exact ⟨Nat.lt_succ_of_lt below, rfl⟩
      · obtain ⟨err, failed⟩ := (inner (.rParen :: rest)).2 unnamed
        rw [body, failed]
        exact ⟨err, rfl⟩

end Descent

theorem tokenize_to_sexpr (printer : Printer) (resolver : String → Option TagId)
    (nameLookup : TagId → String) (query : Types.Query)
    (printable : Printable resolver nameLookup query) :
    tokenize (toSexpr printer nameLookup query) = .ok (tokensOf nameLookup query) := by
  obtain ⟨next, scanned⟩ :=
    render_scans printer query printable 0 [] (by rintro byte ⟨⟩)
  rw [List.append_nil] at scanned
  rw [tokenize, toSexpr, scanned, tokenizeAt]
  exact congrArg Except.ok (List.append_nil _)

theorem parse_to_sexpr_named (printer : Printer) (resolver : String → Option TagId)
    (nameLookup : TagId → String) (query : Types.Query)
    (printable : Printable resolver nameLookup query) (named : Named nameLookup query) :
    parse printer (toSexpr printer nameLookup query) resolver = .ok (reread query) := by
  have descent := query_descends printer (tokensOf nameLookup query).length query printable []
  rw [List.append_nil] at descent
  obtain ⟨below, parsed⟩ := descent.1 named
  rw [parse, tokenize_to_sexpr printer resolver nameLookup query printable]
  simp only [Bind.bind, Except.bind, parsed]

private theorem parse_to_sexpr_unnamed (printer : Printer) (resolver : String → Option TagId)
    (nameLookup : TagId → String) (query : Types.Query)
    (printable : Printable resolver nameLookup query) (unnamed : ¬ Named nameLookup query) :
    Fails (parse printer (toSexpr printer nameLookup query) resolver) := by
  have descent := query_descends printer (tokensOf nameLookup query).length query printable []
  rw [List.append_nil] at descent
  obtain ⟨err, failed⟩ := descent.2 unnamed
  refine ⟨err, ?_⟩
  rw [parse, tokenize_to_sexpr printer resolver nameLookup query printable]
  simp only [Bind.bind, Except.bind, failed]

/-- A printed query is read back exactly if its texts are ASCII and its tags have
names. -/
theorem parse_to_sexpr_iff (printer : Printer) (resolver : String → Option TagId)
    (nameLookup : TagId → String) (query : Types.Query)
    (printable : Printable resolver nameLookup query) :
    parse printer (toSexpr printer nameLookup query) resolver = .ok query ↔
      AsciiTexts query ∧ Named nameLookup query := by
  by_cases named : Named nameLookup query
  · rw [parse_to_sexpr_named printer resolver nameLookup query printable named]
    simp only [Except.ok.injEq, named, and_true]
    exact reread_eq_iff query
  · obtain ⟨err, failed⟩ :=
      parse_to_sexpr_unnamed printer resolver nameLookup query printable named
    rw [failed]
    simp [named]

/-- No message is printed and no fraction is read in the examples below. -/
def plainPrinter : Printer where
  token := fun _ => ""
  float := fun _ => ""
  parseF64 := fun _ => none

/-- The name `year` for tag 10, numbers for all others. -/
def yearName (tag : TagId) : String :=
  if tag = 10 then "year" else String.ofList ('@' :: Nat.toDigits 10 tag)

def yearTag (name : String) : Option TagId := if name = "year" then some 10 else none

theorem year_written (tag : TagId) : WrittenAs yearTag tag (yearName tag) := by
  by_cases isYear : tag = 10
  · subst isYear
    exact .word (by decide) (by decide) (by decide) rfl
  · refine .raw ?_
    rw [yearName, if_neg isYear, String.toList_ofList]

/-- A year and a text with a quote, a backslash and a parenthesis. -/
def quotedYear : Types.Query :=
  .and [.hasTag 42, .not (.or []), .hasAttr 10 .eq (.int (-3)),
    .hasAttr 10 .ne (.text "a\"b\\(")]

theorem quoted_year_reads_back :
    parse plainPrinter (toSexpr plainPrinter yearName quotedYear) yearTag = .ok quotedYear := by
  refine (parse_to_sexpr_iff plainPrinter yearTag yearName quotedYear ?_).mpr ⟨?_, ?_⟩
  · exact ⟨by decide, fun tag _ => year_written tag, by decide⟩
  · intro text member
    have same : text = "a\"b\\(" := by
      simpa [quotedYear, Types.Query.values, Types.Query.collect, Types.Query.collectIn,
        Types.Query.ownValues] using member
    rw [same]
    decide
  · unfold Named
    decide +kernel

/-- A text with an accented letter comes back as another text. -/
theorem accented_text_changes :
    Printable yearTag yearName (.hasAttr 10 .eq (.text "\u00e9")) ∧
      parse plainPrinter (toSexpr plainPrinter yearName (.hasAttr 10 .eq (.text "\u00e9"))) yearTag =
        .ok (.hasAttr 10 .eq (.text "\u00c3\u00a9")) ∧
      parse plainPrinter (toSexpr plainPrinter yearName (.hasAttr 10 .eq (.text "\u00e9"))) yearTag ≠
        .ok (.hasAttr 10 .eq (.text "\u00e9")) := by
  have printable : Printable yearTag yearName (.hasAttr 10 .eq (.text "\u00e9")) :=
    ⟨by decide, fun tag _ => year_written tag, by decide⟩
  have named : Named yearName (.hasAttr 10 .eq (.text "\u00e9")) := by
    unfold Named
    decide +kernel
  have bytes : String.ofList (bytewise "\u00e9".toList) = "\u00c3\u00a9" := by decide +kernel
  rw [parse_to_sexpr_named plainPrinter yearTag yearName _ printable named, reread, rereadValue,
    bytes]
  refine ⟨printable, rfl, ?_⟩
  simp

end Mimisbrunnr.Query
