import Mimisbrunnr.Query.SetSemantics
import Mimisbrunnr.Sql.Planner

/-!
# What a WHERE clause means

`Clause` is a condition as its author reads it: leaves joined by AND, OR and NOT.
`Reads` says which syntax trees are written forms of a clause, and `combined`
gives its set by the set operations of the expression, leaf by leaf. The planner
asks for things on its way (names it resolves, patterns it cuts); the first one
that is missing decides its failure, and if none is missing the planned query
evaluates to the set of the clause.
-/

namespace Mimisbrunnr.Sql

set_option autoImplicit false

open Mimisbrunnr.Ontology
open Mimisbrunnr.Query
open Mimisbrunnr.Types

theorem flatten_and_all_append (children : List Types.Query) (out : List Types.Query)
    (each : ∀ child ∈ children, ∀ out, flattenAnd out child = out ++ flattenAnd [] child) :
    flattenAndAll out children = out ++ children.flatMap (flattenAnd []) := by
  induction children generalizing out with
  | nil => simp [flattenAndAll]
  | cons child rest ih =>
      rw [flattenAndAll, each child List.mem_cons_self,
        ih _ fun later member => each later (List.mem_cons_of_mem _ member)]
      simp

theorem flatten_and_append (query : Types.Query) :
    ∀ out, flattenAnd out query = out ++ flattenAnd [] query := by
  induction query using Types.Query.tree_induction with
  | and children ih =>
      intro out
      rw [flattenAnd, flattenAnd, flatten_and_all_append children out ih,
        flatten_and_all_append children [] ih]
      rfl
  | hasTag tag => intro out; simp [flattenAnd]
  | hasAttr key op value => intro out; simp [flattenAnd]
  | related predicate target => intro out; simp [flattenAnd]
  | or children ih => intro out; simp [flattenAnd]
  | not child ih => intro out; simp [flattenAnd]
  | isA tag => intro out; simp [flattenAnd]

theorem flatten_and_children (children : List Types.Query) :
    flattenAnd [] (.and children) = children.flatMap (flattenAnd []) := by
  rw [flattenAnd, flatten_and_all_append children [] fun child _ => flatten_and_append child]
  rfl

theorem flatten_or_all_append (children : List Types.Query) (out : List Types.Query)
    (each : ∀ child ∈ children, ∀ out, flattenOr out child = out ++ flattenOr [] child) :
    flattenOrAll out children = out ++ children.flatMap (flattenOr []) := by
  induction children generalizing out with
  | nil => simp [flattenOrAll]
  | cons child rest ih =>
      rw [flattenOrAll, each child List.mem_cons_self,
        ih _ fun later member => each later (List.mem_cons_of_mem _ member)]
      simp

theorem flatten_or_append (query : Types.Query) :
    ∀ out, flattenOr out query = out ++ flattenOr [] query := by
  induction query using Types.Query.tree_induction with
  | or children ih =>
      intro out
      rw [flattenOr, flattenOr, flatten_or_all_append children out ih,
        flatten_or_all_append children [] ih]
      rfl
  | hasTag tag => intro out; simp [flattenOr]
  | hasAttr key op value => intro out; simp [flattenOr]
  | related predicate target => intro out; simp [flattenOr]
  | and children ih => intro out; simp [flattenOr]
  | not child ih => intro out; simp [flattenOr]
  | isA tag => intro out; simp [flattenOr]

theorem flatten_or_children (children : List Types.Query) :
    flattenOr [] (.or children) = children.flatMap (flattenOr []) := by
  rw [flattenOr, flatten_or_all_append children [] fun child _ => flatten_or_append child]
  rfl

/-- Two results joined, the failure of the first one before that of the second. -/
def both (join : Finset Nat → Finset Nat → Finset Nat) (left right : Except Failure (Finset Nat)) :
    Except Failure (Finset Nat) := do
  let l ← left
  let r ← right
  .ok (join l r)

section Evaluation

variable (x : QueryExecutor)

theorem evaluate_all_append (left right : List Types.Query) :
    x.evaluateAll (left ++ right) =
      (do
        let l ← x.evaluateAll left
        let r ← x.evaluateAll right
        .ok (l ++ r)) := by
  induction left with
  | nil =>
      rw [List.nil_append, QueryExecutor.evaluateAll]
      rcases x.evaluateAll right with err | bitmaps
      · rfl
      · rfl
  | cons child rest ih =>
      rw [List.cons_append, QueryExecutor.evaluateAll, QueryExecutor.evaluateAll]
      rcases x.evaluate child with err | bitmap
      · rfl
      · simp only [ih]
        rcases x.evaluateAll rest with err | later
        · rfl
        · rcases x.evaluateAll right with err | bitmaps
          · rfl
          · rfl

private theorem evaluate_all_length (children : List Types.Query) (bitmaps : List (Finset Nat))
    (ok : x.evaluateAll children = .ok bitmaps) : children.length = bitmaps.length :=
  ((x.evaluate_all_ok_iff children bitmaps).mp ok).length_eq

theorem evaluate_and_append (left right : List Types.Query) (leftSome : left ≠ [])
    (rightSome : right ≠ []) :
    x.evaluate (.and (left ++ right)) =
      both (· ∩ ·) (x.evaluate (.and left)) (x.evaluate (.and right)) := by
  rw [QueryExecutor.evaluate, QueryExecutor.evaluate, QueryExecutor.evaluate, evaluate_all_append]
  rcases first : x.evaluateAll left with err | l
  · rfl
  · rcases second : x.evaluateAll right with err | r
    · rfl
    · have lSome : l ≠ [] := by
        rintro rfl
        exact leftSome (List.length_eq_zero_iff.mp (evaluate_all_length x left [] first))
      have rSome : r ≠ [] := by
        rintro rfl
        exact rightSome (List.length_eq_zero_iff.mp (evaluate_all_length x right [] second))
      refine congrArg Except.ok (Finset.ext fun entry => ?_)
      rw [QueryExecutor.mem_eval_and (l ++ r) (by simp [lSome]), Finset.mem_inter,
        QueryExecutor.mem_eval_and l lSome, QueryExecutor.mem_eval_and r rSome,
        List.forall_mem_append]

theorem evaluate_or_append (left right : List Types.Query) :
    x.evaluate (.or (left ++ right)) =
      both (· ∪ ·) (x.evaluate (.or left)) (x.evaluate (.or right)) := by
  rw [QueryExecutor.evaluate, QueryExecutor.evaluate, QueryExecutor.evaluate,
    QueryExecutor.evaluate_or_eq, QueryExecutor.evaluate_or_eq, QueryExecutor.evaluate_or_eq,
    evaluate_all_append]
  rcases x.evaluateAll left with err | l
  · rfl
  · rcases x.evaluateAll right with err | r
    · rfl
    · refine congrArg Except.ok (Finset.ext fun entry => ?_)
      rw [Finset.mem_union, QueryExecutor.mem_foldl_union, QueryExecutor.mem_foldl_union,
        QueryExecutor.mem_foldl_union]
      simp only [Finset.notMem_empty, false_or, List.mem_append, or_and_right, exists_or]

theorem evaluate_and_single (query : Types.Query) :
    x.evaluate (.and [query]) = x.evaluate query := by
  rw [QueryExecutor.evaluate, QueryExecutor.evaluateAll, QueryExecutor.evaluateAll]
  rcases x.evaluate query with err | bitmap
  · rfl
  · refine congrArg Except.ok (Finset.ext fun entry => ?_)
    rw [QueryExecutor.mem_eval_and _ (by simp)]
    simp

theorem evaluate_or_single (query : Types.Query) :
    x.evaluate (.or [query]) = x.evaluate query := by
  rw [QueryExecutor.evaluate, QueryExecutor.evaluateOr]
  rcases x.evaluate query with err | bitmap
  · rfl
  · simp [QueryExecutor.evaluateOr]

/-- Children of a conjunction may be replaced by the terms of conjunctions. -/
theorem evaluate_and_expand (terms : Types.Query → List Types.Query) (children : List Types.Query)
    (some_ : children ≠ [])
    (each : ∀ child ∈ children,
      terms child ≠ [] ∧ x.evaluate (.and (terms child)) = x.evaluate child) :
    x.evaluate (.and (children.flatMap terms)) = x.evaluate (.and children) := by
  induction children with
  | nil => exact absurd rfl some_
  | cons child rest ih =>
      obtain ⟨childSome, same⟩ := each child List.mem_cons_self
      rcases rest with _ | ⟨next, rest⟩
      · rw [List.flatMap_singleton, same, evaluate_and_single]
      · have later := ih (by simp) fun other member => each other (List.mem_cons_of_mem _ member)
        have nextSome := (each next (by simp)).1
        rw [List.flatMap_cons, evaluate_and_append x _ _ childSome (by simp [nextSome]), same, later,
          ← evaluate_and_single x child, ← evaluate_and_append x [child] _ (by simp) (by simp)]
        rfl

private theorem evaluate_or_expand (terms : Types.Query → List Types.Query)
    (children : List Types.Query)
    (each : ∀ child ∈ children, x.evaluate (.or (terms child)) = x.evaluate child) :
    x.evaluate (.or (children.flatMap terms)) = x.evaluate (.or children) := by
  induction children with
  | nil => rfl
  | cons child rest ih =>
      have later := ih fun other member => each other (List.mem_cons_of_mem _ member)
      rw [List.flatMap_cons, evaluate_or_append, each child List.mem_cons_self, later,
        ← evaluate_or_single x child, ← evaluate_or_append x [child]]
      rfl

end Evaluation

def NoEmptyAnd (query : Types.Query) : Prop :=
  query.anywhere QueryExecutor.isEmptyAnd = false

theorem no_empty_and_iff (children : List Types.Query) :
    NoEmptyAnd (.and children) ↔ children ≠ [] ∧ ∀ child ∈ children, NoEmptyAnd child := by
  rw [NoEmptyAnd, Types.Query.anywhere, Bool.or_eq_false_iff]
  refine and_congr ?_ (Types.Query.nowhere_in_iff _ children)
  cases children with
  | nil => simp [QueryExecutor.isEmptyAnd]
  | cons child rest => simp [QueryExecutor.isEmptyAnd]

theorem no_empty_and_or_iff (children : List Types.Query) :
    NoEmptyAnd (.or children) ↔ ∀ child ∈ children, NoEmptyAnd child := by
  rw [NoEmptyAnd, Types.Query.anywhere]
  exact Types.Query.nowhere_in_iff _ children

theorem flatten_and_some (query : Types.Query) (noEmptyAnd : NoEmptyAnd query) :
    flattenAnd [] query ≠ [] ∧ ∀ term ∈ flattenAnd [] query, NoEmptyAnd term := by
  induction query using Types.Query.tree_induction with
  | and children ih =>
      obtain ⟨some_, each⟩ := (no_empty_and_iff children).mp noEmptyAnd
      rw [flatten_and_children]
      constructor
      · obtain ⟨child, member⟩ := List.exists_mem_of_ne_nil children some_
        intro empty
        exact (ih child member (each child member)).1 (List.flatMap_eq_nil_iff.mp empty child member)
      · intro term inside
        obtain ⟨child, member, term_⟩ := List.mem_flatMap.mp inside
        exact (ih child member (each child member)).2 term term_
  | hasTag tag => simp [flattenAnd, noEmptyAnd]
  | hasAttr key op value => simp [flattenAnd, noEmptyAnd]
  | related predicate target => simp [flattenAnd, noEmptyAnd]
  | or children ih => simp [flattenAnd, noEmptyAnd]
  | not child ih => simp [flattenAnd, noEmptyAnd]
  | isA tag => simp [flattenAnd, noEmptyAnd]

private theorem flatten_or_each (query : Types.Query) (noEmptyAnd : NoEmptyAnd query) :
    ∀ term ∈ flattenOr [] query, NoEmptyAnd term := by
  induction query using Types.Query.tree_induction with
  | or children ih =>
      have each := (no_empty_and_or_iff children).mp noEmptyAnd
      rw [flatten_or_children]
      intro term inside
      obtain ⟨child, member, term_⟩ := List.mem_flatMap.mp inside
      exact ih child member (each child member) term term_
  | hasTag tag => simp [flattenOr, noEmptyAnd]
  | hasAttr key op value => simp [flattenOr, noEmptyAnd]
  | related predicate target => simp [flattenOr, noEmptyAnd]
  | and children ih => simp [flattenOr, noEmptyAnd]
  | not child ih => simp [flattenOr, noEmptyAnd]
  | isA tag => simp [flattenOr, noEmptyAnd]

theorem evaluate_flatten_and (x : QueryExecutor) (query : Types.Query)
    (noEmptyAnd : NoEmptyAnd query) :
    x.evaluate (.and (flattenAnd [] query)) = x.evaluate query := by
  induction query using Types.Query.tree_induction with
  | and children ih =>
      obtain ⟨some_, each⟩ := (no_empty_and_iff children).mp noEmptyAnd
      rw [flatten_and_children]
      refine evaluate_and_expand x _ children some_ fun child member => ?_
      exact ⟨(flatten_and_some child (each child member)).1, ih child member (each child member)⟩
  | hasTag tag => exact evaluate_and_single x _
  | hasAttr key op value => exact evaluate_and_single x _
  | related predicate target => exact evaluate_and_single x _
  | or children ih => exact evaluate_and_single x _
  | not child ih => exact evaluate_and_single x _
  | isA tag => exact evaluate_and_single x _

private theorem evaluate_flatten_or (x : QueryExecutor) (query : Types.Query) :
    x.evaluate (.or (flattenOr [] query)) = x.evaluate query := by
  induction query using Types.Query.tree_induction with
  | or children ih =>
      rw [flatten_or_children]
      exact evaluate_or_expand x _ children ih
  | hasTag tag => exact evaluate_or_single x _
  | hasAttr key op value => exact evaluate_or_single x _
  | related predicate target => exact evaluate_or_single x _
  | and children ih => exact evaluate_or_single x _
  | not child ih => exact evaluate_or_single x _
  | isA tag => exact evaluate_or_single x _

theorem evaluate_flattened_and (x : QueryExecutor) (left right : Types.Query)
    (leftOk : NoEmptyAnd left) (rightOk : NoEmptyAnd right) :
    x.evaluate (.and (flattenAnd (flattenAnd [] left) right)) =
      both (· ∩ ·) (x.evaluate left) (x.evaluate right) := by
  rw [flatten_and_append right, evaluate_and_append x _ _ (flatten_and_some left leftOk).1
    (flatten_and_some right rightOk).1, evaluate_flatten_and x left leftOk,
    evaluate_flatten_and x right rightOk]

theorem evaluate_flattened_or (x : QueryExecutor) (left right : Types.Query) :
    x.evaluate (.or (flattenOr (flattenOr [] left) right)) =
      both (· ∪ ·) (x.evaluate left) (x.evaluate right) := by
  rw [flatten_or_append right, evaluate_or_append, evaluate_flatten_or, evaluate_flatten_or]

private theorem flattened_and_no_empty (left right : Types.Query) (leftOk : NoEmptyAnd left)
    (rightOk : NoEmptyAnd right) : NoEmptyAnd (.and (flattenAnd (flattenAnd [] left) right)) := by
  obtain ⟨some_, each⟩ := flatten_and_some left leftOk
  rw [flatten_and_append right, no_empty_and_iff, List.forall_mem_append]
  exact ⟨by simp [some_], each, (flatten_and_some right rightOk).2⟩

private theorem flattened_or_no_empty (left right : Types.Query) (leftOk : NoEmptyAnd left)
    (rightOk : NoEmptyAnd right) : NoEmptyAnd (.or (flattenOr (flattenOr [] left) right)) := by
  rw [flatten_or_append right, no_empty_and_or_iff, List.forall_mem_append]
  exact ⟨flatten_or_each left leftOk, flatten_or_each right rightOk⟩

inductive Leaf where
  | tagIs (name : String)
  | tagIn (names : List String)
  | compare (column : String) (cmp : CmpOp) (value : Value)
  | valueIn (column : String) (values : List Value)
  | startsWith (column : String) (body : List Char)
  | isa (name : String)
  | related (name : String) (target : ObjectId)

inductive Clause where
  | leaf (single : Leaf)
  | not (inner : Clause)
  | and (left right : Clause)
  | or (left right : Clause)

/-- The query of a leaf, under the tags its names stand for. -/
def Leaf.query (tagOf : String → TagId) : Leaf → Types.Query
  | .tagIs name => .hasTag (tagOf name)
  | .tagIn names => .or (names.map fun name => .hasTag (tagOf name))
  | .compare column cmp value => .hasAttr (tagOf column) cmp value
  | .valueIn column values => .or (values.map fun value => .hasAttr (tagOf column) .eq value)
  | .startsWith column body => .hasAttr (tagOf column) .prefix_ (.text (String.ofList body))
  | .isa name => .isA (tagOf name)
  | .related name target => .related (tagOf name) target

/-- The set of a clause: each leaf evaluated alone, the sets joined as the clause
says. -/
def Clause.combined (x : QueryExecutor) (tagOf : String → TagId) :
    Clause → Except Failure (Finset Nat)
  | .leaf single => x.evaluate (single.query tagOf)
  | .not inner => (combined x tagOf inner).map (x.universe_ \ ·)
  | .and left right => both (· ∩ ·) (combined x tagOf left) (combined x tagOf right)
  | .or left right => both (· ∪ ·) (combined x tagOf left) (combined x tagOf right)

/-- What planning needs: a name the ontology knows, or a prefix whose pattern can
be cut behind its first byte. -/
inductive Demand where
  | name (text : String)
  | cut (body : List Char)
deriving DecidableEq, Repr

def Demand.met (ontology : OntologyState) : Demand → Bool
  | .name text => (ontology.names.lookup text).isSome
  | .cut body => body.head?.all fun first => first.utf8Size = 1

def Demand.failure : Demand → PlanFailure
  | .name text => .sql (.unknownTag text)
  | .cut _ => .panicked

def Leaf.demands : Leaf → List Demand
  | .tagIs name => [.name name]
  | .tagIn names => names.map .name
  | .compare column _ _ => [.name column]
  | .valueIn column _ => [.name column]
  | .startsWith column body => [.cut body, .name column]
  | .isa name => [.name name]
  | .related name _ => [.name name]

/-- The demands of a clause in the order of its text. -/
def Clause.demands : Clause → List Demand
  | .leaf single => single.demands
  | .not inner => inner.demands
  | .and left right => left.demands ++ right.demands
  | .or left right => left.demands ++ right.demands

def Demand.isKnown (ontology : OntologyState) : Demand → Bool
  | .name text => (ontology.names.lookup text).isSome
  | .cut _ => true

def Demand.unknownName (ontology : OntologyState) : Demand → Option String
  | .name text => if (ontology.names.lookup text).isSome then none else some text
  | .cut _ => none

def Clause.reached (ontology : OntologyState) (clause : Clause) : List Demand :=
  clause.demands.takeWhile (Demand.isKnown ontology)

def Clause.unknownName (ontology : OntologyState) (clause : Clause) : Option String :=
  clause.demands.findSome? (Demand.unknownName ontology)

def Clause.missing (ontology : OntologyState) (clause : Clause) : Option Demand :=
  clause.demands.find? fun demand => ! demand.met ontology

def Clause.Resolves (ontology : OntologyState) (tagOf : String → TagId) (clause : Clause) : Prop :=
  ∀ name, Demand.name name ∈ clause.demands → ontology.names.lookup name = some (tagOf name)

/-- The leaf that an expression without AND, OR, NOT and parentheses states. -/
inductive ReadsLeaf (texts : Texts) : Expr → Leaf → Prop where
  | tagIs (left right : Expr) (column name : String)
      (isColumn : identifierName texts left = .ok column)
      (isTag : eqIgnoreAsciiCase column "tag" = true)
      (isName : literalText texts right = .ok name) :
      ReadsLeaf texts (.binaryOp left .eq right) (.tagIs name)
  | compare (left right : Expr) (op : BinaryOperator) (cmp : CmpOp) (column : String)
      (value : Value) (isColumn : identifierName texts left = .ok column)
      (notTag : eqIgnoreAsciiCase column "tag" = false) (isCmp : cmpOp op = some cmp)
      (isValue : exprToValue texts right = .ok value) :
      ReadsLeaf texts (.binaryOp left op right) (.compare column cmp value)
  | isa (function : String) (arg : FunctionArg Expr) (name : String)
      (isFunction : eqIgnoreAsciiCase function "isa" = true)
      (isName : argAsText texts arg = .ok name) :
      ReadsLeaf texts (.function function (.list [arg])) (.isa name)
  | related (function : String) (predicateArg targetArg : FunctionArg Expr) (name : String)
      (target : Int64) (isFunction : eqIgnoreAsciiCase function "related" = true)
      (isName : argAsText texts predicateArg = .ok name)
      (isTarget : argAsInt texts targetArg = .ok target) :
      ReadsLeaf texts (.function function (.list [predicateArg, targetArg]))
        (.related name (ObjectId.fromU64 target.toUInt64))

/-- The leaf that a list or pattern form states, its NOT left aside. -/
inductive ReadsForm (texts : Texts) : (Bool → Expr) → Leaf → Prop where
  | tagIn (expr : Expr) (list : List Expr) (column : String) (names : List String)
      (isColumn : identifierName texts expr = .ok column)
      (isTag : eqIgnoreAsciiCase column "tag" = true)
      (areNames : List.Forall₂ (fun expr name => literalText texts expr = .ok name) list names) :
      ReadsForm texts (.inList expr list) (.tagIn names)
  | valueIn (expr : Expr) (list : List Expr) (column : String) (values : List Value)
      (isColumn : identifierName texts expr = .ok column)
      (notTag : eqIgnoreAsciiCase column "tag" = false)
      (areValues : List.Forall₂ (fun expr value => exprToValue texts expr = .ok value) list values) :
      ReadsForm texts (.inList expr list) (.valueIn column values)
  | startsWith (expr pattern : Expr) (column : String) (body : List Char)
      (isColumn : identifierName texts expr = .ok column)
      (isPattern : literalText texts pattern = .ok (String.ofList (body ++ ['%'])))
      (some_ : body ≠ []) (noPercent : '%' ∉ body) (noUnderscore : '_' ∉ body) :
      ReadsForm texts (.like expr pattern) (.startsWith column body)

/-- The clause that an expression states. -/
inductive Reads (texts : Texts) : Expr → Clause → Prop where
  | leaf (expr : Expr) (leaf : Leaf) (isLeaf : ReadsLeaf texts expr leaf) :
      Reads texts expr (.leaf leaf)
  | form (form : Bool → Expr) (leaf : Leaf) (isForm : ReadsForm texts form leaf) :
      Reads texts (form false) (.leaf leaf)
  | notForm (form : Bool → Expr) (leaf : Leaf) (isForm : ReadsForm texts form leaf) :
      Reads texts (form true) (.not (.leaf leaf))
  | nested (expr : Expr) (clause : Clause) (inner : Reads texts expr clause) :
      Reads texts (.nested expr) clause
  | not (expr : Expr) (clause : Clause) (inner : Reads texts expr clause) :
      Reads texts (.unaryOp .not expr) (.not clause)
  | and (left right : Expr) (leftClause rightClause : Clause)
      (first : Reads texts left leftClause) (second : Reads texts right rightClause) :
      Reads texts (.binaryOp left .and right) (.and leftClause rightClause)
  | or (left right : Expr) (leftClause rightClause : Clause)
      (first : Reads texts left leftClause) (second : Reads texts right rightClause) :
      Reads texts (.binaryOp left .or right) (.or leftClause rightClause)

/-- The first missing demand decides the failure; without one there is a query with
the sets of the clause. -/
structure Clause.Planned (ontology : OntologyState) (clause : Clause)
    (result : Except PlanFailure Types.Query) : Prop where
  failed : ∀ demand, clause.missing ontology = some demand → result = .error demand.failure
  planned : ∀ tagOf, clause.missing ontology = none → clause.Resolves ontology tagOf →
    ∃ query, result = .ok query ∧ NoEmptyAnd query ∧
      ∀ x : QueryExecutor, x.evaluate query = clause.combined x tagOf

section Outcome

variable {ontology : OntologyState}

private theorem Clause.missing_none_iff (clause : Clause) :
    clause.missing ontology = none ↔ ∀ demand ∈ clause.demands, demand.met ontology = true := by
  rw [Clause.missing, List.find?_eq_none]
  simp

theorem Clause.resolves_of_missing_none (clause : Clause)
    (complete : clause.missing ontology = none) :
    clause.Resolves ontology fun name => (ontology.names.lookup name).getD 0 := by
  intro name asked
  have known := (clause.missing_none_iff).mp complete _ asked
  obtain ⟨tag, found⟩ := Option.isSome_iff_exists.mp known
  simp [found]

private theorem Clause.missing_append (left right whole : Clause)
    (parts : whole.demands = left.demands ++ right.demands) :
    whole.missing ontology = (left.missing ontology).or (right.missing ontology) := by
  rw [Clause.missing, parts, List.find?_append]
  rfl

private theorem Leaf.no_empty_and (leaf : Leaf) (tagOf : String → TagId) :
    NoEmptyAnd (leaf.query tagOf) := by
  cases leaf with
  | tagIn names =>
      refine (no_empty_and_or_iff _).mpr fun child member => ?_
      obtain ⟨name, -, rfl⟩ := List.mem_map.mp member
      rfl
  | valueIn column values =>
      refine (no_empty_and_or_iff _).mpr fun child member => ?_
      obtain ⟨value, -, rfl⟩ := List.mem_map.mp member
      rfl
  | tagIs name => rfl
  | compare column cmp value => rfl
  | startsWith column body => rfl
  | isa name => rfl
  | related name target => rfl

theorem Leaf.planned (leaf : Leaf) (result : Except PlanFailure Types.Query)
    (failed : ∀ demand, (Clause.leaf leaf).missing ontology = some demand →
      result = .error demand.failure)
    (ok : ∀ tagOf, (Clause.leaf leaf).missing ontology = none →
      (Clause.leaf leaf).Resolves ontology tagOf → result = .ok (leaf.query tagOf)) :
    (Clause.leaf leaf).Planned ontology result where
  failed := failed
  planned := fun tagOf complete resolves =>
    ⟨leaf.query tagOf, ok tagOf complete resolves, leaf.no_empty_and tagOf, fun _ => rfl⟩

/-- A leaf with one name, planned by resolving it once the earlier demands are met. -/
theorem Leaf.planned_by_name (leaf : Leaf) (earlier : List Demand) (name : String)
    (build : TagId → Types.Query) (demands : leaf.demands = earlier ++ [.name name])
    (met : ∀ demand ∈ earlier, demand.met ontology = true)
    (built : ∀ tagOf, build (tagOf name) = leaf.query tagOf) :
    (Clause.leaf leaf).Planned ontology ((resolveTag name ontology).map build) := by
  have passed : (earlier.find? fun demand => ! demand.met ontology) = none := by
    simpa [List.find?_eq_none] using met
  rw [resolveTag]
  rcases found : ontology.names.lookup name with _ | tag
  · have missing : (Clause.leaf leaf).missing ontology = some (.name name) := by
      rw [Clause.missing, Clause.demands, demands, List.find?_append, passed]
      simp [Demand.met, found]
    refine leaf.planned _ (fun demand first => ?_) fun _ complete => ?_
    · rw [missing] at first
      cases first
      rfl
    · rw [missing] at complete
      cases complete
  · have complete : (Clause.leaf leaf).missing ontology = none := by
      rw [Clause.missing, Clause.demands, demands, List.find?_append, passed]
      simp [Demand.met, found]
    refine leaf.planned _ (fun demand first => ?_) fun tagOf _ resolves => ?_
    · rw [complete] at first
      cases first
    · have known := resolves name (by simp [Clause.demands, demands])
      rw [found] at known
      rw [Option.some.inj known]
      exact congrArg Except.ok (built tagOf)

theorem bind_ok_eq_map {α β : Type} (result : Except PlanFailure α) (f : α → β) :
    (result >>= fun value => .ok (f value)) = result.map f := by
  cases result with
  | error failure => rfl
  | ok value => rfl

variable {texts : Texts}

private theorem plan_comparison_eq (left right : Expr) (op : BinaryOperator) (cmp : CmpOp)
    (isCmp : cmpOp op = some cmp) :
    planExpr texts ontology (.binaryOp left op right) =
      planComparison texts left op cmp right ontology := by
  cases op with
  | and => cases isCmp
  | or => cases isCmp
  | other shown => cases isCmp
  | eq => cases isCmp; rfl
  | notEq => cases isCmp; rfl
  | lt => cases isCmp; rfl
  | ltEq => cases isCmp; rfl
  | gt => cases isCmp; rfl
  | gtEq => cases isCmp; rfl

private theorem plan_leaf (expr : Expr) (leaf : Leaf) (reads : ReadsLeaf texts expr leaf) :
    (Clause.leaf leaf).Planned ontology (planExpr texts ontology expr) := by
  cases reads with
  | tagIs left right column name isColumn isTag isName =>
      have plan : planExpr texts ontology (.binaryOp left .eq right) =
          (resolveTag name ontology).map .hasTag := by
        rw [plan_comparison_eq left right .eq .eq rfl, ← bind_ok_eq_map]
        simp [planComparison, isColumn, isTag, isName, Bind.bind, Except.bind]
      rw [plan]
      exact Leaf.planned_by_name (.tagIs name) [] name _ rfl (by simp) fun _ => rfl
  | compare left right op cmp column value isColumn notTag isCmp isValue =>
      have plan : planExpr texts ontology (.binaryOp left op right) =
          (resolveTag column ontology).map fun key => .hasAttr key cmp value := by
        rw [plan_comparison_eq left right op cmp isCmp, ← bind_ok_eq_map]
        simp [planComparison, isColumn, notTag, isValue, Bind.bind, Except.bind]
      rw [plan]
      exact Leaf.planned_by_name (.compare column cmp value) [] column _ rfl (by simp) fun _ => rfl
  | isa function arg name isFunction isName =>
      have plan : planExpr texts ontology (.function function (.list [arg])) =
          (resolveTag name ontology).map .isA := by
        rw [← bind_ok_eq_map]
        simp [planExpr, planFunction, isFunction, isName, Bind.bind, Except.bind]
      rw [plan]
      exact Leaf.planned_by_name (.isa name) [] name _ rfl (by simp) fun _ => rfl
  | related function predicateArg targetArg name target isFunction isName isTarget =>
      have notIsa : eqIgnoreAsciiCase function "isa" = false := by
        rw [eqIgnoreAsciiCase, decide_eq_true_eq] at isFunction
        simp [eqIgnoreAsciiCase, isFunction]
      have plan : planExpr texts ontology (.function function (.list [predicateArg, targetArg])) =
          (resolveTag name ontology).map fun predicate =>
            .related predicate (ObjectId.fromU64 target.toUInt64) := by
        rw [← bind_ok_eq_map]
        simp [planExpr, planFunction, isFunction, notIsa, isName, isTarget, Bind.bind, Except.bind]
      rw [plan]
      exact Leaf.planned_by_name (.related name _) [] name _ rfl (by simp) fun _ => rfl

theorem collect_terms_cons_ok (term : Expr → Except PlanFailure Types.Query) (expr : Expr)
    (rest : List Expr) (first : Types.Query) (ok : term expr = .ok first) :
    collectTerms term (expr :: rest) = (collectTerms term rest).map (first :: ·) := by
  rw [collectTerms, ok, ← bind_ok_eq_map]
  rfl

theorem collect_terms_ok (term : Expr → Except PlanFailure Types.Query) (list : List Expr)
    (terms : List Types.Query)
    (each : List.Forall₂ (fun expr query => term expr = .ok query) list terms) :
    collectTerms term list = .ok terms := by
  induction each with
  | nil => rfl
  | cons ok _ ih =>
      rw [collect_terms_cons_ok term _ _ _ ok, ih]
      rfl

/-- The term of a name in a list of tags. -/
def tagTerm (texts : Texts) (ontology : OntologyState) (expr : Expr) :
    Except PlanFailure Types.Query := do
  let name ← literalText texts expr
  let id ← resolveTag name ontology
  .ok (.hasTag id)

theorem tag_term_eq (ontology : OntologyState) (expr : Expr) (name : String)
    (isName : literalText texts expr = .ok name) :
    tagTerm texts ontology expr = (resolveTag name ontology).map .hasTag := by
  rw [tagTerm, isName, ← bind_ok_eq_map]
  rfl

theorem collect_names_failed (list : List Expr) (names : List String) (demand : Demand)
    (areNames : List.Forall₂ (fun expr name => literalText texts expr = .ok name) list names)
    (first : (Clause.leaf (.tagIn names)).missing ontology = some demand) :
    collectTerms (tagTerm texts ontology) list = .error demand.failure := by
  induction areNames with
  | nil => cases first
  | @cons expr name list names isName _ ih =>
      have term := tag_term_eq ontology expr name isName
      rw [resolveTag] at term
      rcases found : ontology.names.lookup name with _ | tag
      · rw [found] at term
        have here : demand = .name name := by
          simpa [Clause.missing, Clause.demands, Leaf.demands, Demand.met, found, eq_comm] using first
        rw [collectTerms, term, here]
        rfl
      · rw [found] at term
        have later : (Clause.leaf (.tagIn names)).missing ontology = some demand := by
          simpa [Clause.missing, Clause.demands, Leaf.demands, Demand.met, found] using first
        rw [collect_terms_cons_ok _ _ _ _ term, ih later]
        rfl

private theorem tag_terms_ok (list : List Expr) (names : List String) (tagOf : String → TagId)
    (areNames : List.Forall₂ (fun expr name => literalText texts expr = .ok name) list names)
    (known : ∀ name ∈ names, ontology.names.lookup name = some (tagOf name)) :
    List.Forall₂ (fun expr query => tagTerm texts ontology expr = .ok query) list
      (names.map fun name => .hasTag (tagOf name)) := by
  induction areNames with
  | nil => exact List.Forall₂.nil
  | @cons expr name list names isName _ ih =>
      refine List.Forall₂.cons ?_ (ih fun other member => known other (List.mem_cons_of_mem _ member))
      rw [tag_term_eq ontology expr name isName, resolveTag, known name List.mem_cons_self]
      rfl

private theorem plan_tag_list (list : List Expr) (column : String) (names : List String)
    (isTag : eqIgnoreAsciiCase column "tag" = true)
    (areNames : List.Forall₂ (fun expr name => literalText texts expr = .ok name) list names) :
    (Clause.leaf (.tagIn names)).Planned ontology (planInList texts column list ontology) := by
  have plan : planInList texts column list ontology =
      (collectTerms (tagTerm texts ontology) list).map .or := by
    rw [planInList, if_pos isTag, ← bind_ok_eq_map]
    rfl
  rw [plan]
  refine Leaf.planned _ _ (fun demand first => ?_) fun tagOf _ resolves => ?_
  · rw [collect_names_failed list names demand areNames first]
    rfl
  · have known (name : String) (member : name ∈ names) :
        ontology.names.lookup name = some (tagOf name) :=
      resolves name (List.mem_map_of_mem member)
    rw [collect_terms_ok _ list _ (tag_terms_ok list names tagOf areNames known)]
    rfl

private theorem plan_value_list (list : List Expr) (column : String) (values : List Value)
    (notTag : eqIgnoreAsciiCase column "tag" = false)
    (areValues : List.Forall₂ (fun expr value => exprToValue texts expr = .ok value) list values) :
    (Clause.leaf (.valueIn column values)).Planned ontology
      (planInList texts column list ontology) := by
  have plan : planInList texts column list ontology =
      (resolveTag column ontology).map fun key =>
        .or (values.map fun value => .hasAttr key .eq value) := by
    rw [planInList, if_neg (by simp [notTag]), ← bind_ok_eq_map]
    refine bind_congr fun key => ?_
    rw [collect_terms_ok _ list (values.map fun value => .hasAttr key .eq value)]
    · rfl
    · rw [List.forall₂_map_right_iff]
      refine areValues.imp fun expr value isValue => ?_
      rw [isValue]
      rfl
  rw [plan]
  exact Leaf.planned_by_name (.valueIn column values) [] column _ rfl (by simp) fun _ => rfl

theorem middle_slice_prefix (ontology : OntologyState) (body : List Char) (some_ : body ≠ []) :
    middleSlice (String.ofList (body ++ ['%'])) =
      if (Demand.cut body).met ontology = true then .ok (body.drop 1) else .error .panicked := by
  obtain ⟨first, rest, rfl⟩ := List.exists_cons_of_ne_nil some_
  have long : 2 ≤ (String.ofList (first :: rest ++ ['%'])).utf8ByteSize := by
    have firstSize := first.utf8Size_pos
    have percentSize := Char.utf8Size_pos '%'
    rw [List.cons_append, String.ofList_cons, String.ofList_append, String.utf8ByteSize_append,
      String.utf8ByteSize_append, String.utf8ByteSize_singleton]
    have percent : (String.ofList ['%']).utf8ByteSize = 1 := by decide
    omega
  have last : (first :: rest ++ ['%']).getLast? = some '%' := List.getLast?_concat
  have percent : '%'.utf8Size = 1 := by decide
  rw [middleSlice, if_pos long, String.toList_ofList, last]
  simp [Demand.met, percent]

theorem plan_prefix (ontology : OntologyState) (column : String) (body : List Char) (some_ : body ≠ [])
    (noPercent : '%' ∉ body) (noUnderscore : '_' ∉ body) :
    (Clause.leaf (.startsWith column body)).Planned ontology
      (planLike column (String.ofList (body ++ ['%'])) ontology) := by
  by_cases cut : (Demand.cut body).met ontology = true
  · have plan : planLike column (String.ofList (body ++ ['%'])) ontology =
        (resolveTag column ontology).map fun key =>
          .hasAttr key .prefix_ (.text (String.ofList body)) := by
      have noLead : (body ++ ['%']).head? ≠ some '%' := by
        obtain ⟨first, rest, rfl⟩ := List.exists_cons_of_ne_nil some_
        intro lead
        exact noPercent (Option.some.inj lead ▸ List.mem_cons_self)
      have trail : (body ++ ['%']).getLast? = some '%' := List.getLast?_concat
      have front : (body ++ ['%']).dropLast = body := List.dropLast_concat
      have clean : ¬ ('_' ∈ body ++ ['%'] ∨ '%' ∈ body.drop 1) := by
        rintro (underscore | percent)
        · exact noUnderscore (by simpa using underscore)
        · exact noPercent (List.mem_of_mem_drop percent)
      rw [planLike, middle_slice_prefix ontology body some_, if_pos cut, ← bind_ok_eq_map]
      simp only [String.toList_ofList, noLead, trail, front, clean, decide_true, decide_false,
        if_false, Bind.bind, Except.bind]
    rw [plan]
    refine Leaf.planned_by_name (.startsWith column body) [.cut body] column _ rfl ?_ fun _ => rfl
    simpa using cut
  · have plan : planLike column (String.ofList (body ++ ['%'])) ontology = .error .panicked := by
      rw [planLike, middle_slice_prefix ontology body some_, if_neg cut]
      rfl
    have missing :
        (Clause.leaf (.startsWith column body)).missing ontology = some (.cut body) := by
      simp [Clause.missing, Clause.demands, Leaf.demands, cut]
    refine Leaf.planned _ _ (fun demand first => ?_) fun _ complete => ?_
    · rw [missing] at first
      cases first
      exact plan
    · rw [missing] at complete
      cases complete

theorem plan_form (ontology : OntologyState) (form : Bool → Expr) (leaf : Leaf)
    (reads : ReadsForm texts form leaf) :
    ∃ base, (Clause.leaf leaf).Planned ontology base ∧
      ∀ negated, planExpr texts ontology (form negated) = base.map (negate negated) := by
  cases reads with
  | tagIn expr list column names isColumn isTag areNames =>
      refine ⟨_, plan_tag_list list column names isTag areNames, fun negated => ?_⟩
      rw [planExpr, isColumn, ← bind_ok_eq_map]
      rfl
  | valueIn expr list column values isColumn notTag areValues =>
      refine ⟨_, plan_value_list list column values notTag areValues, fun negated => ?_⟩
      rw [planExpr, isColumn, ← bind_ok_eq_map]
      rfl
  | startsWith expr pattern column body isColumn isPattern some_ noPercent noUnderscore =>
      refine ⟨_, plan_prefix ontology column body some_ noPercent noUnderscore, fun negated => ?_⟩
      rw [planExpr, isColumn, isPattern, ← bind_ok_eq_map]
      rfl

private theorem Clause.Planned.not {clause : Clause} {result : Except PlanFailure Types.Query}
    (inner : clause.Planned ontology result) :
    (Clause.not clause).Planned ontology (result.map .not) where
  failed := by
    intro demand first
    rw [inner.failed demand first]
    rfl
  planned := by
    intro tagOf complete resolves
    obtain ⟨query, ok, noEmptyAnd, meaning⟩ := inner.planned tagOf complete resolves
    refine ⟨.not query, by rw [ok]; rfl, noEmptyAnd, fun x => ?_⟩
    rw [Clause.combined, ← meaning x, QueryExecutor.evaluate]
    rcases x.evaluate query with err | bitmap
    · rfl
    · rfl

/-- Two clauses planned one after the other and joined. -/
theorem Clause.Planned.join {left right whole : Clause}
    {leftResult rightResult : Except PlanFailure Types.Query}
    (first : left.Planned ontology leftResult) (second : right.Planned ontology rightResult)
    (build : Types.Query → Types.Query → Types.Query)
    (join : Finset Nat → Finset Nat → Finset Nat)
    (parts : whole.demands = left.demands ++ right.demands)
    (combined : ∀ (x : QueryExecutor) tagOf,
      whole.combined x tagOf = both join (left.combined x tagOf) (right.combined x tagOf))
    (noEmptyAnd : ∀ l r, NoEmptyAnd l → NoEmptyAnd r → NoEmptyAnd (build l r))
    (evaluated : ∀ (x : QueryExecutor) l r, NoEmptyAnd l → NoEmptyAnd r →
      x.evaluate (build l r) = both join (x.evaluate l) (x.evaluate r)) :
    whole.Planned ontology (do
      let l ← leftResult
      let r ← rightResult
      .ok (build l r)) where
  failed := by
    intro demand missing
    rw [Clause.missing_append left right whole parts] at missing
    rcases leftMissing : left.missing ontology with _ | found
    · obtain ⟨l, leftOk, -, -⟩ :=
        first.planned _ leftMissing (left.resolves_of_missing_none leftMissing)
      rw [leftMissing, Option.none_or] at missing
      rw [leftOk, second.failed demand missing]
      rfl
    · rw [leftMissing, Option.some_or] at missing
      rw [first.failed found leftMissing, Option.some.inj missing]
      rfl
  planned := by
    intro tagOf complete resolves
    rw [Clause.missing_append left right whole parts, Option.or_eq_none_iff] at complete
    obtain ⟨l, leftOk, leftNoEmpty, leftMeaning⟩ := first.planned tagOf complete.1 fun name asked =>
      resolves name (by rw [parts]; exact List.mem_append_left _ asked)
    obtain ⟨r, rightOk, rightNoEmpty, rightMeaning⟩ :=
      second.planned tagOf complete.2 fun name asked =>
        resolves name (by rw [parts]; exact List.mem_append_right _ asked)
    refine ⟨build l r, by rw [leftOk, rightOk]; rfl, noEmptyAnd l r leftNoEmpty rightNoEmpty, ?_⟩
    intro x
    rw [evaluated x l r leftNoEmpty rightNoEmpty, combined x tagOf, leftMeaning x, rightMeaning x]

theorem plan_outcome (ontology : OntologyState) (expr : Expr) (clause : Clause)
    (reads : Reads texts expr clause) :
    clause.Planned ontology (planExpr texts ontology expr) := by
  induction reads with
  | leaf expr leaf isLeaf => exact plan_leaf expr leaf isLeaf
  | form form leaf isForm =>
      obtain ⟨base, planned, same⟩ := plan_form ontology form leaf isForm
      have plain : base.map (negate false) = base := by
        cases base with
        | error failure => rfl
        | ok query => rfl
      rw [same, plain]
      exact planned
  | notForm form leaf isForm =>
      obtain ⟨base, planned, same⟩ := plan_form ontology form leaf isForm
      rw [same]
      exact planned.not
  | nested expr clause _ ih =>
      rw [planExpr]
      exact ih
  | not expr clause _ ih =>
      rw [planExpr, bind_ok_eq_map]
      exact ih.not
  | and left right leftClause rightClause _ _ first second =>
      exact first.join second (fun l r => .and (flattenAnd (flattenAnd [] l) r)) (· ∩ ·) rfl
        (fun _ _ => rfl) flattened_and_no_empty evaluate_flattened_and
  | or left right leftClause rightClause _ _ first second =>
      exact first.join second (fun l r => .or (flattenOr (flattenOr [] l) r)) (· ∪ ·) rfl
        (fun _ _ => rfl) flattened_or_no_empty fun x l r _ _ => evaluate_flattened_or x l r

end Outcome

/-- Where the patterns in front of the first unknown name can be cut, this name is the
first thing missing. -/
theorem Clause.missing_of_reached_met (ontology : OntologyState) (clause : Clause)
    (met : ∀ body, Demand.cut body ∈ clause.reached ontology →
      (Demand.cut body).met ontology = true) :
    clause.missing ontology = (clause.unknownName ontology).map .name := by
  unfold Clause.reached at met
  rw [Clause.missing, Clause.unknownName]
  generalize clause.demands = demands at met ⊢
  induction demands with
  | nil => rfl
  | cons demand rest ih =>
      rw [List.find?_cons, List.findSome?_cons]
      cases demand with
      | name text =>
          rcases found : ontology.names.lookup text with _ | tag
          · simp [Demand.met, Demand.unknownName, found]
          · have later := ih fun body member =>
              met body (by simpa [List.takeWhile_cons, Demand.isKnown, found] using member)
            simpa [Demand.met, Demand.unknownName, found] using later
      | cut body =>
          have first := met body (by simp [List.takeWhile_cons, Demand.isKnown])
          have later := ih fun other member =>
            met other (by
              rw [List.takeWhile_cons, if_pos (by rfl)]
              exact List.mem_cons_of_mem _ member)
          simpa [first, Demand.unknownName] using later

theorem Clause.missing_of_reached_unmet (ontology : OntologyState) (clause : Clause)
    (body : List Char) (asked : Demand.cut body ∈ clause.reached ontology)
    (unmet : (Demand.cut body).met ontology = false) :
    ∃ other, clause.missing ontology = some (.cut other) := by
  unfold Clause.reached at asked
  rw [Clause.missing]
  generalize clause.demands = demands at asked ⊢
  induction demands with
  | nil => cases asked
  | cons demand rest ih =>
      rw [List.takeWhile_cons] at asked
      rw [List.find?_cons]
      cases demand with
      | name text =>
          rcases found : ontology.names.lookup text with _ | tag
          · simp [Demand.isKnown, found] at asked
          · have later := ih (by simpa [Demand.isKnown, found] using asked)
            simpa [Demand.met, found] using later
      | cut first =>
          rcases cut : (Demand.cut first).met ontology with _ | _
          · exact ⟨first, rfl⟩
          · rw [if_pos (by rfl)] at asked
            rcases List.mem_cons.mp asked with same | later
            · cases same
              rw [cut] at unmet
              cases unmet
            · exact ih later

private theorem Clause.known_of_unknown_none (ontology : OntologyState) (clause : Clause)
    (all : clause.unknownName ontology = none) :
    clause.Resolves ontology fun name => (ontology.names.lookup name).getD 0 := by
  intro name asked
  have known := List.findSome?_eq_none_iff.mp all _ asked
  rcases found : ontology.names.lookup name with _ | tag
  · simp [Demand.unknownName, found] at known
  · simp [found]

/-- Planning keeps the meaning of an expression whose names are known, and reports the first
unknown name of another one, exactly if every LIKE pattern in front of that name, or every one if
there is none, begins with a character of one byte. -/
theorem plan_preserves_meaning_iff (texts : Texts) (ontology : OntologyState) (expr : Expr)
    (clause : Clause) (reads : Reads texts expr clause) :
    ((∀ tagOf, clause.Resolves ontology tagOf →
        ∃ query, planExpr texts ontology expr = .ok query ∧
          ∀ x : QueryExecutor, x.evaluate query = clause.combined x tagOf) ∧
      ∀ name, clause.unknownName ontology = some name →
        planExpr texts ontology expr = .error (.sql (.unknownTag name))) ↔
    ∀ body, Demand.cut body ∈ clause.reached ontology → ∀ first, body.head? = some first →
      first.utf8Size = 1 := by
  have outcome := plan_outcome ontology expr clause reads
  constructor
  · rintro ⟨means, reports⟩ body asked
    by_contra wide
    have unmet : (Demand.cut body).met ontology = false := by
      rw [← Bool.not_eq_true]
      intro met
      exact wide fun first lead => by simpa [Demand.met, lead] using met
    obtain ⟨other, missing⟩ := clause.missing_of_reached_unmet ontology body asked unmet
    have panics := outcome.failed _ missing
    rcases unknown : clause.unknownName ontology with _ | name
    · obtain ⟨query, ok, -⟩ := means _ (clause.known_of_unknown_none ontology unknown)
      rw [panics] at ok
      cases ok
    · have reported := reports name unknown
      rw [panics] at reported
      cases reported
  · intro cuts
    have missing := clause.missing_of_reached_met ontology fun body asked => by
      rcases lead : body.head? with _ | first
      · simp [Demand.met, lead]
      · simpa [Demand.met, lead] using cuts body asked first lead
    constructor
    · intro tagOf resolves
      have unknown : clause.unknownName ontology = none := by
        refine List.findSome?_eq_none_iff.mpr fun demand asked => ?_
        cases demand with
        | name text => simp [Demand.unknownName, resolves text asked]
        | cut body => rfl
      rw [unknown] at missing
      obtain ⟨query, ok, -, meaning⟩ := outcome.planned tagOf missing resolves
      exact ⟨query, ok, meaning⟩
    · intro name unknown
      rw [unknown] at missing
      exact outcome.failed _ missing

/-- No message is printed in the examples below. -/
def noTexts : Texts where
  expr := fun _ => ""
  literal := fun _ => ""
  operator := fun _ => ""
  value := fun _ => ""
  parseF64 := fun _ => none

/-- The names `title` and `book`. -/
def library : OntologyState :=
  { OntologyState.new with names := (Finmap.singleton "title" 7).insert "book" 5 }

def titleStarts (pattern : String) : Expr :=
  .like (.identifier "title") (.value (.singleQuotedString pattern)) false

/-- `tag = 'book' AND NOT (title LIKE 'a%')` -/
def otherBooks : Expr :=
  .binaryOp (.binaryOp (.identifier "tag") .eq (.value (.singleQuotedString "book"))) .and
    (.unaryOp .not (.nested (titleStarts "a%")))

theorem title_starts_reads (body : List Char) (some_ : body ≠ []) (noPercent : '%' ∉ body)
    (noUnderscore : '_' ∉ body) :
    Reads noTexts (titleStarts (String.ofList (body ++ ['%']))) (.leaf (.startsWith "title" body)) :=
  .form (.like (.identifier "title") _) _
    (.startsWith _ _ "title" body rfl rfl some_ noPercent noUnderscore)

private theorem other_books_reads :
    Reads noTexts otherBooks
      (.and (.leaf (.tagIs "book")) (.not (.leaf (.startsWith "title" ['a'])))) :=
  .and _ _ _ _ (.leaf _ _ (.tagIs _ _ "tag" "book" rfl (by decide) rfl))
    (.not _ _ (.nested _ _ (title_starts_reads ['a'] (by decide) (by decide) (by decide))))

theorem library_knows (name : String) (known : name = "book" ∨ name = "title") :
    library.names.lookup name = some (if name = "book" then 5 else 7) := by
  rcases known with rfl | rfl
  · decide +kernel
  · decide +kernel

theorem other_books_planned :
    ∃ query, planExpr noTexts library otherBooks = .ok query ∧
      ∀ x : QueryExecutor, x.evaluate query =
        both (· ∩ ·) (x.evaluate (.hasTag 5))
          ((x.evaluate (.hasAttr 7 .prefix_ (.text "a"))).map (x.universe_ \ ·)) := by
  have holds := (plan_preserves_meaning_iff noTexts library otherBooks _ other_books_reads).mpr (by
    intro body asked first lead
    have among := (List.takeWhile_prefix _).subset asked
    simp only [Clause.demands, Leaf.demands, List.cons_append, List.nil_append, List.mem_cons,
      reduceCtorEq, Demand.cut.injEq, List.not_mem_nil, or_false, false_or] at among
    subst among
    cases lead
    decide)
  refine holds.1 (fun name => if name = "book" then 5 else 7) fun name asked => ?_
  exact library_knows name (by simpa [Clause.demands, Leaf.demands] using asked)

/-- A title that starts with an accented letter: the name is known and the pattern is a
prefix, but there is no query. -/
theorem accented_prefix_panics :
    Reads noTexts (titleStarts (String.ofList (['\u00e9'] ++ ['%'])))
        (.leaf (.startsWith "title" ['\u00e9'])) ∧
      (Clause.leaf (.startsWith "title" ['\u00e9'])).Resolves library
        (fun name => if name = "book" then 5 else 7) ∧
      ¬ ∃ query, planExpr noTexts library (titleStarts (String.ofList (['\u00e9'] ++ ['%']))) =
        .ok query := by
  refine ⟨title_starts_reads ['\u00e9'] (by decide) (by decide) (by decide), fun name asked => ?_, ?_⟩
  · exact library_knows name (by simpa [Clause.demands, Leaf.demands] using Or.inr asked)
  · rintro ⟨query, ok⟩
    have panics := plan_prefix library "title" ['\u00e9'] (by decide) (by decide)
      (by decide)
    have stops := panics.failed (.cut ['\u00e9']) (by decide +kernel)
    simp only [titleStarts, planExpr, identifierName, literalText, Bind.bind, Except.bind, stops] at ok
    cases ok

end Mimisbrunnr.Sql
