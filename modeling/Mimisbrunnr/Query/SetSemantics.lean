import Mimisbrunnr.Query.Executor

/-!
# What a query means

`answer` gives the set of objects a query asks for, by recursion over the tree
and with nothing but the forward index and the ontology. The executor reads
three other structures and never the definition of a set; over indices that
agree with the forward index it computes the same sets.
-/

namespace Mimisbrunnr.Query

set_option autoImplicit false

open Mimisbrunnr.Index
open Mimisbrunnr.Lib
open Mimisbrunnr.Lib.FiniteMap
open Mimisbrunnr.Ontology
open Mimisbrunnr.Types

namespace QueryExecutor

private theorem mem_intersect_all (acc : Finset Nat) (rest : List (Finset Nat)) (entry : Nat) :
    entry ∈ intersectAll acc rest ↔ entry ∈ acc ∧ ∀ bitmap ∈ rest, entry ∈ bitmap := by
  induction rest generalizing acc with
  | nil => simp [intersectAll]
  | cons other rest ih =>
      rw [intersectAll, List.forall_mem_cons, ← and_assoc, ← Finset.mem_inter]
      by_cases stopped : acc ∩ other = ∅
      · -- nothing that comes later can put an entry back
        simp [stopped]
      · simp only [stopped, if_false]
        exact ih (acc ∩ other)

theorem mem_eval_and (bitmaps : List (Finset Nat)) (some_ : bitmaps ≠ []) (entry : Nat) :
    entry ∈ evalAnd bitmaps ↔ ∀ bitmap ∈ bitmaps, entry ∈ bitmap := by
  have sorted := List.perm_insertionSort (fun a b : Finset Nat => a.card ≤ b.card) bitmaps
  rw [evalAnd]
  rcases shape : bitmaps.insertionSort fun a b => a.card ≤ b.card with _ | ⟨first, rest⟩
  · rw [shape] at sorted
    exact absurd sorted.symm.eq_nil some_
  · rw [shape] at sorted
    have taken := Vec.cons_swap_remove_perm (first :: rest) 0 first rfl
    simp only [shape]
    rw [mem_intersect_all, ← List.forall_mem_cons (p := fun bitmap => entry ∈ bitmap)]
    simp only [(taken.trans sorted).mem_iff]

variable (x : QueryExecutor)

/-- `Or` adds up what `evaluateAll` collects. -/
theorem evaluate_or_eq (acc : Finset Nat) (children : List Types.Query) :
    x.evaluateOr acc children =
      (x.evaluateAll children).map fun bitmaps => bitmaps.foldl (· ∪ ·) acc := by
  induction children generalizing acc with
  | nil => simp [evaluateOr, evaluateAll, Except.map]
  | cons child rest ih =>
      rw [evaluateOr, evaluateAll]
      rcases x.evaluate child with err | bitmap
      · rfl
      · simp only [ih]
        rcases x.evaluateAll rest with err | bitmaps
        · rfl
        · rfl

theorem mem_foldl_union (bitmaps : List (Finset Nat)) (acc : Finset Nat) (entry : Nat) :
    entry ∈ bitmaps.foldl (· ∪ ·) acc ↔ entry ∈ acc ∨ ∃ bitmap ∈ bitmaps, entry ∈ bitmap := by
  induction bitmaps generalizing acc with
  | nil => simp
  | cons bitmap rest ih =>
      rw [List.foldl_cons, ih, Finset.mem_union]
      simp only [List.mem_cons, exists_eq_or_imp, or_assoc]

theorem evaluate_all_ok_iff (children : List Types.Query) (bitmaps : List (Finset Nat)) :
    x.evaluateAll children = .ok bitmaps ↔
      List.Forall₂ (fun child bitmap => x.evaluate child = .ok bitmap) children bitmaps := by
  induction children generalizing bitmaps with
  | nil => simp [evaluateAll, eq_comm]
  | cons child rest ih =>
      rw [evaluateAll, List.forall₂_cons_left_iff]
      rcases evaluated : x.evaluate child with err | bitmap
      · simp
      · rcases others : x.evaluateAll rest with err | later
        · simp only [reduceCtorEq, Except.ok.injEq, false_iff, not_exists, not_and]
          intro b bs _ pointwise
          rw [(ih bs).mpr pointwise] at others
          cases others
        · simp only [Except.ok.injEq]
          constructor
          · rintro rfl
            exact ⟨bitmap, later, rfl, (ih later).mp others, rfl⟩
          · rintro ⟨b, bs, rfl, pointwise, rfl⟩
            rw [(ih bs).mpr pointwise] at others
            cases others
            rfl

private theorem evaluate_all_error (children : List Types.Query) (err : Failure)
    (failed : x.evaluateAll children = .error err) :
    ∃ child ∈ children, x.evaluate child = .error err := by
  induction children with
  | nil => simp [evaluateAll] at failed
  | cons child rest ih =>
      rw [evaluateAll] at failed
      rcases evaluated : x.evaluate child with first | bitmap
      · rw [evaluated] at failed
        cases failed
        exact ⟨child, List.mem_cons_self, evaluated⟩
      · rw [evaluated] at failed
        rcases others : x.evaluateAll rest with later | bitmaps
        · rw [others] at failed
          cases failed
          obtain ⟨found, member, bad⟩ := ih others
          exact ⟨found, List.mem_cons_of_mem _ member, bad⟩
        · simp [others] at failed

theorem evaluate_and_parts (children : List Types.Query) (result : Finset Nat)
    (evaluated : x.evaluate (.and children) = .ok result) :
    ∃ bitmaps, List.Forall₂ (fun child bitmap => x.evaluate child = .ok bitmap) children bitmaps ∧
      evalAnd bitmaps = result := by
  rw [evaluate] at evaluated
  cases all : x.evaluateAll children with
  | error err =>
      rw [all] at evaluated
      cases evaluated
  | ok bitmaps =>
      rw [all] at evaluated
      exact ⟨bitmaps, (x.evaluate_all_ok_iff children bitmaps).mp all, Except.ok.inj evaluated⟩

theorem evaluate_or_parts (children : List Types.Query) (result : Finset Nat)
    (evaluated : x.evaluate (.or children) = .ok result) :
    ∃ bitmaps, List.Forall₂ (fun child bitmap => x.evaluate child = .ok bitmap) children bitmaps ∧
      bitmaps.foldl (· ∪ ·) ∅ = result := by
  rw [evaluate, evaluate_or_eq] at evaluated
  cases all : x.evaluateAll children with
  | error err =>
      rw [all] at evaluated
      cases evaluated
  | ok bitmaps =>
      rw [all] at evaluated
      exact ⟨bitmaps, (x.evaluate_all_ok_iff children bitmaps).mp all, Except.ok.inj evaluated⟩

theorem evaluate_not_parts (child : Types.Query) (result : Finset Nat)
    (evaluated : x.evaluate (.not child) = .ok result) :
    ∃ bitmap, x.evaluate child = .ok bitmap ∧ x.universe_ \ bitmap = result := by
  rw [evaluate] at evaluated
  cases inner : x.evaluate child with
  | error err =>
      rw [inner] at evaluated
      cases evaluated
  | ok bitmap =>
      rw [inner] at evaluated
      exact ⟨bitmap, rfl, Except.ok.inj evaluated⟩

theorem evaluate_all_sets (children : List Types.Query) (sets : Types.Query → Finset Nat)
    (evaluated : ∀ child ∈ children, x.evaluate child = .ok (sets child)) :
    x.evaluateAll children = .ok (children.map sets) := by
  rw [evaluate_all_ok_iff, List.forall₂_map_right_iff]
  exact List.forall₂_same.mpr evaluated

/-- A conjunction of at least one child is the intersection of their sets. -/
theorem evaluate_and_ok (children : List Types.Query) (some_ : children ≠ [])
    (sets : Types.Query → Finset Nat)
    (evaluated : ∀ child ∈ children, x.evaluate child = .ok (sets child)) :
    ∃ bitmap, x.evaluate (.and children) = .ok bitmap ∧
      ∀ entry, entry ∈ bitmap ↔ ∀ child ∈ children, entry ∈ sets child := by
  have all := x.evaluate_all_sets children sets evaluated
  refine ⟨evalAnd (children.map sets), by simp [evaluate, all], fun entry => ?_⟩
  rw [mem_eval_and _ (by simpa using some_)]
  simp

private theorem evaluate_or_ok (children : List Types.Query) (sets : Types.Query → Finset Nat)
    (evaluated : ∀ child ∈ children, x.evaluate child = .ok (sets child)) :
    ∃ bitmap, x.evaluate (.or children) = .ok bitmap ∧
      ∀ entry, entry ∈ bitmap ↔ ∃ child ∈ children, entry ∈ sets child := by
  have all := x.evaluate_all_sets children sets evaluated
  refine ⟨(children.map sets).foldl (· ∪ ·) ∅, ?_, fun entry => ?_⟩
  · rw [evaluate, evaluate_or_eq, all]
    rfl
  · rw [mem_foldl_union]
    simp

theorem evaluate_not_ok (child : Types.Query) (bitmap : Finset Nat)
    (evaluated : x.evaluate child = .ok bitmap) :
    x.evaluate (.not child) = .ok (x.universe_ \ bitmap) := by
  rw [evaluate, evaluated]

def Carries (oid : ObjectId) (assertion : Assertion) : Prop :=
  ∃ origin, (assertion, origin) ∈ x.forwardIndex.assertionsOf oid

private theorem mem_scan_object (test : Assertion → Bool) (entry : Nat) (raw : UInt64)
    (assertions : List (Assertion × TagOrigin)) (acc : Finset Nat) :
    entry ∈ assertions.foldl (scanEntry test raw) acc ↔
      entry ∈ acc ∨
        (oidLow32 raw = some entry ∧ ∃ candidate ∈ assertions, test candidate.1 = true) := by
  induction assertions generalizing acc with
  | nil => simp
  | cons candidate rest ih =>
      rw [List.foldl_cons, ih, scanEntry]
      by_cases passes : test candidate.1 = true
      · rcases oidLow32 raw with _ | local32
        · simp [passes]
        · simp only [passes, if_true, Finset.mem_insert, Option.some.injEq, List.mem_cons,
            exists_eq_or_imp, true_or, and_true]
          constructor
          · rintro ((rfl | old) | ⟨rfl, -⟩)
            · exact Or.inr rfl
            · exact Or.inl old
            · exact Or.inr rfl
          · rintro (old | rfl)
            · exact Or.inl (Or.inr old)
            · exact Or.inl (Or.inl rfl)
      · simp [passes]

private theorem mem_scan_fold (test : Assertion → Bool) (entry : Nat)
    (objects : List (UInt64 × List (Assertion × TagOrigin))) (acc : Finset Nat) :
    entry ∈ objects.foldl (fun acc object => object.2.foldl (scanEntry test object.1) acc) acc ↔
      entry ∈ acc ∨ ∃ object ∈ objects, oidLow32 object.1 = some entry ∧
        ∃ candidate ∈ object.2, test candidate.1 = true := by
  induction objects generalizing acc with
  | nil => simp
  | cons object rest ih =>
      rw [List.foldl_cons, ih, mem_scan_object]
      simp only [List.mem_cons, exists_eq_or_imp, or_assoc]

theorem mem_scan (test : Assertion → Bool) (entry : Nat) :
    entry ∈ x.scan test ↔
      ∃ oid assertion, oidLow32 oid.toU64 = some entry ∧ x.Carries oid assertion ∧
        test assertion = true := by
  rw [scan, mem_scan_fold]
  simp only [Finset.notMem_empty, false_or]
  constructor
  · rintro ⟨⟨raw, assertions⟩, member, fits, candidate, inside, passes⟩
    have stored := (mem_to_sorted _ raw assertions).mp member
    refine ⟨ObjectId.fromU64 raw, candidate.1, fits, ⟨candidate.2, ?_⟩, passes⟩
    simpa [ForwardIndex.assertionsOf, ObjectId.fromU64, ObjectId.toU64, stored] using inside
  · rintro ⟨oid, assertion, fits, ⟨origin, inside⟩, passes⟩
    rcases stored : x.forwardIndex.entries.lookup oid.toU64 with _ | assertions
    · simp [ForwardIndex.assertionsOf, stored] at inside
    · refine ⟨(oid.toU64, assertions), (mem_to_sorted _ _ _).mpr stored, fits, ?_⟩
      exact ⟨(assertion, origin), by simpa [ForwardIndex.assertionsOf, stored] using inside, passes⟩

def tagged : Set ObjectId := {oid | ∃ tag, x.Carries oid (.tag tag)}

/-- The meaning of a comparison. The range comparisons and `Contains` have none
here. -/
def answerAttr (key : TagId) (op : CmpOp) (value : Value) : Set ObjectId :=
  match op, value with
  | .eq, value => {oid | x.Carries oid (.attr key value)}
  | .ne, value =>
      {oid | ∃ held, x.Carries oid (.attr key held)} \ {oid | x.Carries oid (.attr key value)}
  | .prefix_, .text needle =>
      {oid | ∃ haystack, x.Carries oid (.attr key (.text haystack)) ∧
        needle.toList <+: haystack.toList}
  | _, _ => ∅

mutual

def answer : Types.Query → Set ObjectId
  | .hasTag tag => {oid | x.Carries oid (.tag tag)}
  | .hasAttr key op value => x.answerAttr key op value
  | .related predicate target => {oid | x.Carries oid (.relation predicate target)}
  | .and children => answerAll children
  | .or children => answerAny children
  | .not child => x.tagged \ answer child
  | .isA tag => {oid | ∃ held, x.Carries oid (.tag held) ∧ tag ∈ x.ontology.materialise [held]}

def answerAll : List Types.Query → Set ObjectId
  | [] => Set.univ
  | child :: rest => answer child ∩ answerAll rest

def answerAny : List Types.Query → Set ObjectId
  | [] => ∅
  | child :: rest => answer child ∪ answerAny rest

end

theorem mem_answer_all (children : List Types.Query) (oid : ObjectId) :
    oid ∈ x.answerAll children ↔ ∀ child ∈ children, oid ∈ x.answer child := by
  induction children with
  | nil => simp [answerAll]
  | cons child rest ih => simp [answerAll, ih]

theorem mem_answer_any (children : List Types.Query) (oid : ObjectId) :
    oid ∈ x.answerAny children ↔ ∃ child ∈ children, oid ∈ x.answer child := by
  induction children with
  | nil => simp [answerAny]
  | cons child rest ih => simp [answerAny, ih]

/-- The objects are of node 0 with local numbers below 2^32, and the two inverted
indices hold the entries of exactly the objects that carry the tag, or an
attribute with the hash. -/
structure Agrees : Prop where
  small : ∀ oid assertion, x.Carries oid assertion → oid.raw.toNat < 2 ^ 32
  tags : ∀ tag entry, entry ∈ x.tagIndex.membersOf tag ↔
    ∃ oid, x.Carries oid (.tag tag) ∧ oid.low32 = entry
  kv : ∀ key value entry, entry ∈ x.kvIndex.lookup x.hash key value ↔
    ∃ oid held, x.Carries oid (.attr key held) ∧ x.hash held = x.hash value ∧ oid.low32 = entry

def isContains : Types.Query → Bool
  | .hasAttr _ .contains _ => true
  | _ => false

def isRange : Types.Query → Bool
  | .hasAttr _ .lt _ => true
  | .hasAttr _ .le _ => true
  | .hasAttr _ .gt _ => true
  | .hasAttr _ .ge _ => true
  | _ => false

def isEmptyAnd : Types.Query → Bool
  | .and [] => true
  | _ => false

def comparesWith (value : Value) : Types.Query → Bool
  | .hasAttr _ _ other => other = value
  | _ => false

/-- No value of an object has the hash of another value that the query compares
with. -/
def CollisionFree (query : Types.Query) : Prop :=
  ∀ oid key held value, x.Carries oid (.attr key held) →
    query.anywhere (comparesWith value) = true → x.hash held = x.hash value → held = value

variable {x}

private theorem Agrees.low32 (agrees : x.Agrees) (oid : ObjectId) (assertion : Assertion)
    (carried : x.Carries oid assertion) : oidLow32 oid.toU64 = some oid.low32 := by
  have bound := agrees.small oid assertion carried
  have local48 : oid.raw.toNat % 2 ^ 48 = oid.raw.toNat :=
    Nat.mod_eq_of_lt (Nat.lt_trans bound (by decide))
  have entry : oid.raw.toNat % 2 ^ 32 = oid.raw.toNat := Nat.mod_eq_of_lt bound
  simp only [oidLow32, ObjectId.toU64, ObjectId.low32, local48, entry, if_pos bound]

theorem Agrees.mem_scan (agrees : x.Agrees) (test : Assertion → Bool) (entry : Nat) :
    entry ∈ x.scan test ↔
      ∃ oid, (∃ assertion, x.Carries oid assertion ∧ test assertion = true) ∧
        oid.low32 = entry := by
  rw [QueryExecutor.mem_scan]
  constructor
  · rintro ⟨oid, assertion, fits, carried, passes⟩
    rw [agrees.low32 oid assertion carried] at fits
    exact ⟨oid, ⟨assertion, carried, passes⟩, Option.some.inj fits⟩
  · rintro ⟨oid, ⟨assertion, carried, passes⟩, rfl⟩
    exact ⟨oid, assertion, agrees.low32 oid assertion carried, carried, passes⟩

theorem mem_universe (entry : Nat) :
    entry ∈ x.universe_ ↔ ∃ tag, entry ∈ x.tagIndex.membersOf tag := by
  have fold (stores : List (TagId × TagStore)) (acc : Finset Nat) :
      entry ∈ stores.foldl (fun acc entry => acc ∪ entry.2.members) acc ↔
        entry ∈ acc ∨ ∃ store ∈ stores, entry ∈ store.2.members := by
    induction stores generalizing acc with
    | nil => simp
    | cons store rest ih =>
        rw [List.foldl_cons, ih, Finset.mem_union]
        simp only [List.mem_cons, exists_eq_or_imp, or_assoc]
  rw [universe_, fold]
  simp only [Finset.notMem_empty, false_or, Prod.exists, mem_to_sorted, TagIndex.membersOf,
    TagIndex.querySimple]
  refine exists_congr fun tag => ?_
  rcases x.tagIndex.stores.lookup tag with _ | store
  · simp
  · simp

private theorem mem_add_descendants (tag : TagId) (tags : List TagId) (acc : Finset Nat)
    (entry : Nat) :
    entry ∈ tags.foldl (x.addDescendant tag) acc ↔
      entry ∈ acc ∨ ∃ held ∈ tags, tag ∈ x.ontology.materialise [held] ∧
        entry ∈ x.tagIndex.membersOf held := by
  induction tags generalizing acc with
  | nil => simp
  | cons held rest ih =>
      rw [List.foldl_cons, ih, addDescendant]
      simp only [List.mem_cons, exists_eq_or_imp, ← or_assoc]
      refine or_congr_left ?_
      by_cases implied : tag ∈ x.ontology.materialise [held]
      · simp only [implied, if_true, true_and, TagIndex.membersOf, TagIndex.querySimple]
        rcases x.tagIndex.stores.lookup held with _ | store
        · simp
        · simp
      · simp [implied]

theorem mem_eval_isa (tag : TagId) (entry : Nat) :
    entry ∈ x.evalIsa tag ↔
      ∃ held, tag ∈ x.ontology.materialise [held] ∧ entry ∈ x.tagIndex.membersOf held := by
  rw [evalIsa, mem_add_descendants]
  simp only [Finset.notMem_empty, false_or, SortedSet.mem_of_finset]
  refine exists_congr fun held => and_iff_right_of_imp ?_
  -- a tag without a store has no members
  rintro ⟨-, member⟩
  rcases found : x.tagIndex.stores.lookup held with _ | store
  · simp [TagIndex.membersOf, TagIndex.querySimple, found] at member
  · exact mem_of_lookup _ held store found

def Answers (x : QueryExecutor) (query : Types.Query) (result : Finset Nat) : Prop :=
  (result : Set Nat) = ObjectId.low32 '' x.answer query

theorem answers_iff (query : Types.Query) (result : Finset Nat) :
    x.Answers query result ↔
      ∀ entry, entry ∈ result ↔ ∃ oid, oid ∈ x.answer query ∧ oid.low32 = entry := by
  rw [Answers, Set.ext_iff]
  simp only [Finset.mem_coe, Set.mem_image]

private theorem Agrees.answers_has_tag (agrees : x.Agrees) (tag : TagId) :
    x.Answers (.hasTag tag) (x.evalHasTag tag) := by
  rw [answers_iff]
  intro entry
  simp only [answer, Set.mem_ofPred_eq]
  exact agrees.tags tag entry

private theorem Agrees.answers_isa (agrees : x.Agrees) (tag : TagId) :
    x.Answers (.isA tag) (x.evalIsa tag) := by
  rw [answers_iff]
  intro entry
  simp only [answer, Set.mem_ofPred_eq, mem_eval_isa, agrees.tags]
  constructor
  · rintro ⟨held, implied, oid, carried, same⟩
    exact ⟨oid, ⟨held, carried, implied⟩, same⟩
  · rintro ⟨oid, ⟨held, carried, implied⟩, same⟩
    exact ⟨held, implied, oid, carried, same⟩

private theorem Agrees.answers_related (agrees : x.Agrees) (predicate : TagId) (target : ObjectId) :
    x.Answers (.related predicate target) (x.evalRelated predicate target) := by
  rw [answers_iff]
  intro entry
  rw [evalRelated, agrees.mem_scan]
  simp only [answer, Set.mem_ofPred_eq]
  refine exists_congr fun oid => and_congr_left fun _ => ?_
  constructor
  · rintro ⟨assertion, carried, passes⟩
    cases assertion with
    | tag t => cases passes
    | attr k v => cases passes
    | relation p t =>
        simp only [Bool.and_eq_true, decide_eq_true_eq] at passes
        obtain ⟨rfl, rfl⟩ := passes
        exact carried
  · intro carried
    exact ⟨.relation predicate target, carried, by simp⟩

private theorem Agrees.mem_objects_with_key (agrees : x.Agrees) (key : TagId) (entry : Nat) :
    entry ∈ x.objectsWithAttrKey key ↔
      ∃ oid, (∃ held, x.Carries oid (.attr key held)) ∧ oid.low32 = entry := by
  rw [objectsWithAttrKey, agrees.mem_scan]
  refine exists_congr fun oid => and_congr_left fun _ => ?_
  constructor
  · rintro ⟨assertion, carried, passes⟩
    cases assertion with
    | tag t => cases passes
    | attr k held =>
        simp only [decide_eq_true_eq] at passes
        subst passes
        exact ⟨held, carried⟩
    | relation p t => cases passes
  · rintro ⟨held, carried⟩
    exact ⟨.attr key held, carried, by simp⟩

private theorem Agrees.mem_eval_prefix (agrees : x.Agrees) (key : TagId) (needle : String)
    (entry : Nat) :
    entry ∈ x.evalPrefix key (.text needle) ↔
      ∃ oid, (∃ haystack, x.Carries oid (.attr key (.text haystack)) ∧
        needle.toList <+: haystack.toList) ∧ oid.low32 = entry := by
  rw [evalPrefix, agrees.mem_scan]
  refine exists_congr fun oid => and_congr_left fun _ => ?_
  constructor
  · rintro ⟨assertion, carried, passes⟩
    split at passes
    · next k haystack =>
        simp only [Bool.and_eq_true, decide_eq_true_eq, List.isPrefixOf_iff_prefix] at passes
        obtain ⟨rfl, begins⟩ := passes
        exact ⟨haystack, carried, begins⟩
    · cases passes
  · rintro ⟨haystack, carried, begins⟩
    exact ⟨.attr key (.text haystack), carried, by simp [List.isPrefixOf_iff_prefix, begins]⟩

theorem Agrees.injective (agrees : x.Agrees) (left right : ObjectId) (a b : Assertion)
    (leftCarries : x.Carries left a) (rightCarries : x.Carries right b)
    (same : left.low32 = right.low32) : left = right := by
  have leftBound := agrees.small left a leftCarries
  have rightBound := agrees.small right b rightCarries
  rw [ObjectId.low32, ObjectId.low32, Nat.mod_eq_of_lt leftBound, Nat.mod_eq_of_lt rightBound] at same
  cases left
  cases right
  exact congrArg ObjectId.mk (UInt64.toNat.inj same)

private theorem Agrees.mem_lookup (agrees : x.Agrees) (key : TagId) (op : CmpOp) (value : Value)
    (free : x.CollisionFree (.hasAttr key op value)) (entry : Nat) :
    entry ∈ x.kvIndex.lookup x.hash key value ↔
      ∃ oid, x.Carries oid (.attr key value) ∧ oid.low32 = entry := by
  rw [agrees.kv]
  constructor
  · rintro ⟨oid, held, carried, sameHash, same⟩
    have asked : (Types.Query.hasAttr key op value).anywhere (comparesWith value) = true := by
      simp [Types.Query.anywhere, comparesWith]
    rw [free oid key held value carried asked sameHash] at carried
    exact ⟨oid, carried, same⟩
  · rintro ⟨oid, carried, same⟩
    exact ⟨oid, value, carried, rfl, same⟩

/-- A comparison that is neither a range nor `Contains`. -/
theorem Agrees.answers_has_attr (agrees : x.Agrees) (key : TagId) (op : CmpOp) (value : Value)
    (free : x.CollisionFree (.hasAttr key op value))
    (noRange : isRange (.hasAttr key op value) = false)
    (noContains : isContains (.hasAttr key op value) = false) :
    ∃ result, x.evalHasAttr key op value = .ok result ∧
      x.Answers (.hasAttr key op value) result := by
  have held := agrees.mem_lookup key op value free
  cases op with
  | eq =>
      refine ⟨_, rfl, (answers_iff _ _).mpr fun entry => ?_⟩
      simp only [answer, answerAttr, Set.mem_ofPred_eq]
      exact held entry
  | ne =>
      refine ⟨_, rfl, (answers_iff _ _).mpr fun entry => ?_⟩
      rw [Finset.mem_sdiff, agrees.mem_objects_with_key, held]
      simp only [answer, answerAttr, Set.mem_sdiff, Set.mem_ofPred_eq]
      constructor
      · rintro ⟨⟨oid, some_, rfl⟩, never⟩
        exact ⟨oid, ⟨some_, fun carried => never ⟨oid, carried, rfl⟩⟩, rfl⟩
      · rintro ⟨oid, ⟨⟨other, carried⟩, without⟩, rfl⟩
        refine ⟨⟨oid, ⟨other, carried⟩, rfl⟩, ?_⟩
        rintro ⟨twin, has, same⟩
        exact without (agrees.injective twin oid _ _ has carried same ▸ has)
  | lt => cases noRange
  | le => cases noRange
  | gt => cases noRange
  | ge => cases noRange
  | contains => cases noContains
  | prefix_ =>
      refine ⟨_, rfl, (answers_iff _ _).mpr fun entry => ?_⟩
      cases value with
      | text needle =>
          simp only [answer, answerAttr, Set.mem_ofPred_eq]
          exact agrees.mem_eval_prefix key needle entry
      | int n => simp [evalPrefix, answer, answerAttr]
      | float n => simp [evalPrefix, answer, answerAttr]
      | timestamp n => simp [evalPrefix, answer, answerAttr]
      | blob n => simp [evalPrefix, answer, answerAttr]
      | «scoped» context inner => simp [evalPrefix, answer, answerAttr]

theorem child_free {test : Types.Query → Bool} {children : List Types.Query}
    (nowhere : Types.Query.anywhereIn test children = false) (child : Types.Query)
    (member : child ∈ children) : child.anywhere test = false :=
  (Types.Query.nowhere_in_iff test children).mp nowhere child member

theorem answer_carries (query : Types.Query) (oid : ObjectId)
    (noEmptyAnd : query.anywhere isEmptyAnd = false) (member : oid ∈ x.answer query) :
    ∃ assertion, x.Carries oid assertion := by
  induction query using Types.Query.tree_induction with
  | hasTag tag => exact ⟨_, member⟩
  | hasAttr key op value =>
      simp only [answer, answerAttr] at member
      split at member
      · exact ⟨_, member⟩
      · obtain ⟨⟨held, carried⟩, -⟩ := member
        exact ⟨_, carried⟩
      · obtain ⟨haystack, carried, -⟩ := member
        exact ⟨_, carried⟩
      · cases member
  | related predicate target => exact ⟨_, member⟩
  | and children ih =>
      rw [answer, mem_answer_all] at member
      simp only [Types.Query.anywhere, Bool.or_eq_false_iff] at noEmptyAnd
      rcases children with _ | ⟨first, rest⟩
      · cases noEmptyAnd.1
      · have inside : first ∈ first :: rest := List.mem_cons_self
        exact ih first inside (child_free noEmptyAnd.2 first inside) (member first inside)
  | or children ih =>
      rw [answer, mem_answer_any] at member
      simp only [Types.Query.anywhere, Bool.or_eq_false_iff] at noEmptyAnd
      obtain ⟨child, inside, asked⟩ := member
      exact ih child inside (child_free noEmptyAnd.2 child inside) asked
  | not child _ =>
      obtain ⟨⟨tag, carried⟩, -⟩ := member
      exact ⟨_, carried⟩
  | isA tag =>
      obtain ⟨held, carried, -⟩ := member
      exact ⟨_, carried⟩

/-- The failure of a query with a `Contains` leaf. -/
def unsupported : Failure := .query (.unsupportedCmpOp "Contains")

/-- The two outcomes of an evaluation. -/
def Outcome (x : QueryExecutor) (query : Types.Query) : Prop :=
  (query.anywhere isContains = true ∧ x.evaluate query = .error unsupported) ∨
    (query.anywhere isContains = false ∧
      ∃ result, x.evaluate query = .ok result ∧ x.Answers query result)

/-- The children of a conjunction or a disjunction fail together as soon as one
of them holds a `Contains`. -/
theorem evaluate_all_outcome (children : List Types.Query)
    (outcomes : ∀ child ∈ children, x.Outcome child) :
    (Types.Query.anywhereIn isContains children = true ∧
        x.evaluateAll children = .error unsupported) ∨
      (Types.Query.anywhereIn isContains children = false ∧
        ∃ sets : Types.Query → Finset Nat, ∀ child ∈ children,
          x.evaluate child = .ok (sets child) ∧ x.Answers child (sets child)) := by
  by_cases bad : Types.Query.anywhereIn isContains children = true
  · refine Or.inl ⟨bad, ?_⟩
    rcases outcome : x.evaluateAll children with err | bitmaps
    · obtain ⟨child, member, failed⟩ := x.evaluate_all_error children err outcome
      rcases outcomes child member with ⟨-, same⟩ | ⟨-, result, ok, -⟩
      · rw [failed] at same
        cases same
        rfl
      · rw [failed] at ok
        cases ok
    · obtain ⟨child, member, here⟩ := (Types.Query.anywhere_in_iff _ _).mp bad
      have each := (x.evaluate_all_ok_iff children bitmaps).mp outcome
      obtain ⟨bitmap, -, ok⟩ := Vec.exists_right_of_mem each child member
      rcases outcomes child member with ⟨-, failed⟩ | ⟨clean, -⟩
      · rw [failed] at ok
        cases ok
      · rw [clean] at here
        cases here
  · have clean : Types.Query.anywhereIn isContains children = false := by simpa using bad
    refine Or.inr ⟨clean, fun child => (x.evaluate child).toOption.getD ∅, ?_⟩
    intro child member
    rcases outcomes child member with ⟨here, -⟩ | ⟨-, result, ok, answers⟩
    · rw [child_free clean child member] at here
      cases here
    · simp only [ok, Except.toOption, Option.getD_some]
      exact ⟨trivial, answers⟩

private theorem CollisionFree.child {query child : Types.Query} (free : x.CollisionFree query)
    (inside : ∀ test, child.anywhere test = true → query.anywhere test = true) :
    x.CollisionFree child :=
  fun oid key held value carried here sameHash =>
    free oid key held value carried (inside _ here) sameHash

private theorem Agrees.answers_and (agrees : x.Agrees) (children : List Types.Query)
    (sets : Types.Query → Finset Nat) (result : Finset Nat) (some_ : children ≠ [])
    (noEmptyAnd : ∀ child ∈ children, child.anywhere isEmptyAnd = false)
    (each : ∀ child ∈ children, x.Answers child (sets child))
    (members : ∀ entry, entry ∈ result ↔ ∀ child ∈ children, entry ∈ sets child) :
    x.Answers (.and children) result := by
  rw [answers_iff]
  intro entry
  rw [members, answer]
  simp only [mem_answer_all]
  have answered (child : Types.Query) (member : child ∈ children) :=
    (answers_iff child (sets child)).mp (each child member) entry
  constructor
  · -- all children name the object that the first one names
    intro all
    obtain ⟨first, inside⟩ := List.exists_mem_of_ne_nil children some_
    obtain ⟨oid, asked, same⟩ := (answered first inside).mp (all first inside)
    refine ⟨oid, fun child member => ?_, same⟩
    obtain ⟨twin, alsoAsked, again⟩ := (answered child member).mp (all child member)
    obtain ⟨a, carried⟩ := answer_carries first oid (noEmptyAnd first inside) asked
    obtain ⟨b, twinCarried⟩ := answer_carries child twin (noEmptyAnd child member) alsoAsked
    rw [agrees.injective oid twin a b carried twinCarried (same.trans again.symm)]
    exact alsoAsked
  · rintro ⟨oid, asked, same⟩ child member
    exact (answered child member).mpr ⟨oid, asked child member, same⟩

private theorem answers_or (children : List Types.Query) (sets : Types.Query → Finset Nat)
    (result : Finset Nat) (each : ∀ child ∈ children, x.Answers child (sets child))
    (members : ∀ entry, entry ∈ result ↔ ∃ child ∈ children, entry ∈ sets child) :
    x.Answers (.or children) result := by
  rw [answers_iff]
  intro entry
  rw [members, answer]
  simp only [mem_answer_any]
  have answered (child : Types.Query) (member : child ∈ children) :=
    (answers_iff child (sets child)).mp (each child member) entry
  constructor
  · rintro ⟨child, member, here⟩
    obtain ⟨oid, asked, same⟩ := (answered child member).mp here
    exact ⟨oid, ⟨child, member, asked⟩, same⟩
  · rintro ⟨oid, ⟨child, member, asked⟩, same⟩
    exact ⟨child, member, (answered child member).mpr ⟨oid, asked, same⟩⟩

private theorem Agrees.answers_not (agrees : x.Agrees) (child : Types.Query) (bitmap : Finset Nat)
    (noEmptyAnd : child.anywhere isEmptyAnd = false) (answers : x.Answers child bitmap) :
    x.Answers (.not child) (x.universe_ \ bitmap) := by
  rw [answers_iff]
  intro entry
  rw [Finset.mem_sdiff, mem_universe, (answers_iff child bitmap).mp answers entry, answer]
  simp only [agrees.tags, Set.mem_sdiff, tagged, Set.mem_ofPred_eq]
  constructor
  · rintro ⟨⟨tag, oid, carried, same⟩, never⟩
    exact ⟨oid, ⟨⟨tag, carried⟩, fun asked => never ⟨oid, asked, same⟩⟩, same⟩
  · rintro ⟨oid, ⟨⟨tag, carried⟩, without⟩, same⟩
    refine ⟨⟨tag, oid, carried, same⟩, ?_⟩
    rintro ⟨twin, asked, again⟩
    obtain ⟨a, twinCarried⟩ := answer_carries child twin noEmptyAnd asked
    rw [agrees.injective twin oid a _ twinCarried carried (again.trans same.symm)] at asked
    exact without asked

theorem Agrees.outcome (agrees : x.Agrees) (query : Types.Query)
    (free : x.CollisionFree query) (noRange : query.anywhere isRange = false)
    (noEmptyAnd : query.anywhere isEmptyAnd = false) : x.Outcome query := by
  induction query using Types.Query.tree_induction with
  | hasTag tag => exact Or.inr ⟨rfl, _, rfl, agrees.answers_has_tag tag⟩
  | hasAttr key op value =>
      rcases kind : isContains (.hasAttr key op value) with _ | _
      · obtain ⟨result, ok, answers⟩ := agrees.answers_has_attr key op value free noRange kind
        exact Or.inr ⟨kind, result, by rw [evaluate, ok], answers⟩
      · refine Or.inl ⟨kind, ?_⟩
        cases op <;> simp [isContains] at kind
        rfl
  | related predicate target =>
      exact Or.inr ⟨rfl, _, rfl, agrees.answers_related predicate target⟩
  | and children ih =>
      simp only [Types.Query.anywhere, Bool.or_eq_false_iff] at noRange noEmptyAnd
      have outcomes (child : Types.Query) (member : child ∈ children) : x.Outcome child :=
        ih child member (free.child fun test here => by
            rw [Types.Query.anywhere, Bool.or_eq_true]
            exact Or.inr ((Types.Query.anywhere_in_iff test children).mpr ⟨child, member, here⟩))
          (child_free noRange.2 child member) (child_free noEmptyAnd.2 child member)
      have some_ : children ≠ [] := by
        rintro rfl
        cases noEmptyAnd.1
      rcases evaluate_all_outcome children outcomes with ⟨bad, failed⟩ | ⟨clean, sets, each⟩
      · exact Or.inl ⟨by simpa [Types.Query.anywhere, isContains] using bad,
          by rw [evaluate, failed]⟩
      · refine Or.inr ⟨by simpa [Types.Query.anywhere, isContains] using clean, ?_⟩
        obtain ⟨result, ok, members⟩ :=
          x.evaluate_and_ok children some_ sets fun child member => (each child member).1
        exact ⟨result, ok, agrees.answers_and children sets result some_
          (child_free noEmptyAnd.2) (fun child member => (each child member).2) members⟩
  | or children ih =>
      simp only [Types.Query.anywhere, Bool.or_eq_false_iff] at noRange noEmptyAnd
      have outcomes (child : Types.Query) (member : child ∈ children) : x.Outcome child :=
        ih child member (free.child fun test here => by
            rw [Types.Query.anywhere, Bool.or_eq_true]
            exact Or.inr ((Types.Query.anywhere_in_iff test children).mpr ⟨child, member, here⟩))
          (child_free noRange.2 child member) (child_free noEmptyAnd.2 child member)
      rcases evaluate_all_outcome children outcomes with ⟨bad, failed⟩ | ⟨clean, sets, each⟩
      · refine Or.inl ⟨by simpa [Types.Query.anywhere, isContains] using bad, ?_⟩
        rw [evaluate, evaluate_or_eq, failed]
        rfl
      · refine Or.inr ⟨by simpa [Types.Query.anywhere, isContains] using clean, ?_⟩
        obtain ⟨result, ok, members⟩ :=
          x.evaluate_or_ok children sets fun child member => (each child member).1
        exact ⟨result, ok,
          answers_or children sets result (fun child member => (each child member).2) members⟩
  | not child ih =>
      simp only [Types.Query.anywhere, Bool.or_eq_false_iff] at noRange noEmptyAnd
      have inner := ih (free.child fun test here => by
        rw [Types.Query.anywhere, here, Bool.or_true]) noRange.2 noEmptyAnd.2
      rcases inner with ⟨bad, failed⟩ | ⟨clean, bitmap, ok, answers⟩
      · exact Or.inl ⟨by simpa [Types.Query.anywhere, isContains] using bad,
          by rw [evaluate, failed]⟩
      · exact Or.inr ⟨by simpa [Types.Query.anywhere, isContains] using clean,
          _, x.evaluate_not_ok child bitmap ok, agrees.answers_not child bitmap noEmptyAnd.2 answers⟩
  | isA tag => exact Or.inr ⟨rfl, _, rfl, agrees.answers_isa tag⟩

theorem anywhere_in_same (test : Types.Query → Bool) (left right : List Types.Query)
    (same : ∀ child, child ∈ left ↔ child ∈ right) :
    Types.Query.anywhereIn test left = Types.Query.anywhereIn test right := by
  rw [Bool.eq_iff_iff, Types.Query.anywhere_in_iff, Types.Query.anywhere_in_iff]
  simp only [same]

theorem outcome_eq (first second : Types.Query) (left : x.Outcome first) (right : x.Outcome second)
    (kind : first.anywhere isContains = second.anywhere isContains)
    (meaning : x.answer first = x.answer second) : x.evaluate first = x.evaluate second := by
  rcases left with ⟨bad, failed⟩ | ⟨clean, result, ok, answers⟩
  · rcases right with ⟨-, alsoFailed⟩ | ⟨alsoClean, -⟩
    · rw [failed, alsoFailed]
    · rw [bad, alsoClean] at kind
      cases kind
  · rcases right with ⟨alsoBad, -⟩ | ⟨-, other, alsoOk, alsoAnswers⟩
    · rw [clean, alsoBad] at kind
      cases kind
    · rw [Answers, meaning] at answers
      have equal : result = other := Finset.coe_injective (answers.trans alsoAnswers.symm)
      rw [ok, alsoOk, equal]

private theorem Agrees.evaluate_and_same (agrees : x.Agrees) (left right : List Types.Query)
    (same : ∀ child, child ∈ left ↔ child ∈ right) (free : x.CollisionFree (.and left))
    (noRange : (Types.Query.and left).anywhere isRange = false)
    (noEmptyAnd : (Types.Query.and left).anywhere isEmptyAnd = false) :
    x.evaluate (.and right) = x.evaluate (.and left) := by
  have some_ : isEmptyAnd (.and right) = isEmptyAnd (.and left) := by
    rcases left with _ | ⟨first, rest⟩
    · cases noEmptyAnd
    · rcases right with _ | ⟨other, others⟩
      · cases (same first).mp List.mem_cons_self
      · rfl
  have inner (test : Types.Query → Bool) (kept : test (.and right) = test (.and left)) :
      (Types.Query.and right).anywhere test = (Types.Query.and left).anywhere test := by
    rw [Types.Query.anywhere, Types.Query.anywhere, kept, anywhere_in_same test left right same]
  refine outcome_eq _ _ (agrees.outcome _ ?_ ?_ ?_) (agrees.outcome _ free noRange noEmptyAnd)
    (inner isContains rfl) ?_
  · intro oid key held value carried here sameHash
    exact free oid key held value carried (inner (comparesWith value) rfl ▸ here) sameHash
  · rw [inner isRange rfl, noRange]
  · rw [inner isEmptyAnd some_, noEmptyAnd]
  · ext oid
    rw [answer, answer, mem_answer_all, mem_answer_all]
    simp only [same]

private theorem Agrees.evaluate_or_same (agrees : x.Agrees) (left right : List Types.Query)
    (same : ∀ child, child ∈ left ↔ child ∈ right) (free : x.CollisionFree (.or left))
    (noRange : (Types.Query.or left).anywhere isRange = false)
    (noEmptyAnd : (Types.Query.or left).anywhere isEmptyAnd = false) :
    x.evaluate (.or right) = x.evaluate (.or left) := by
  have inner (test : Types.Query → Bool) (kept : test (.or right) = test (.or left)) :
      (Types.Query.or right).anywhere test = (Types.Query.or left).anywhere test := by
    rw [Types.Query.anywhere, Types.Query.anywhere, kept, anywhere_in_same test left right same]
  refine outcome_eq _ _ (agrees.outcome _ ?_ ?_ ?_) (agrees.outcome _ free noRange noEmptyAnd)
    (inner isContains rfl) ?_
  · intro oid key held value carried here sameHash
    exact free oid key held value carried (inner (comparesWith value) rfl ▸ here) sameHash
  · rw [inner isRange rfl, noRange]
  · rw [inner isEmptyAnd rfl, noEmptyAnd]
  · ext oid
    rw [answer, answer, mem_answer_any, mem_answer_any]
    simp only [same]

/-- For every query without range comparisons and empty conjunctions, over every
state of the indices that agrees with the forward index: the evaluation fails
exactly if there is a `Contains`, otherwise it returns the objects the query
means, and children may be reordered and repeated. -/
theorem evaluate_eq_set_semantics (x : QueryExecutor) (query : Types.Query) (agrees : x.Agrees)
    (free : x.CollisionFree query) (noRange : query.anywhere isRange = false)
    (noEmptyAnd : query.anywhere isEmptyAnd = false) :
    ((∃ err, x.evaluate query = .error err) ↔ query.anywhere isContains = true) ∧
      (query.anywhere isContains = false → ∃ result, x.evaluate query = .ok result ∧
        (result : Set Nat) = ObjectId.low32 '' x.answer query) ∧
      ∀ left right, (∀ child, child ∈ left ↔ child ∈ right) →
        (query = .and left → x.evaluate (.and right) = x.evaluate query) ∧
          (query = .or left → x.evaluate (.or right) = x.evaluate query) := by
  refine ⟨?_, ?_, ?_⟩
  · rcases agrees.outcome query free noRange noEmptyAnd with ⟨bad, failed⟩ | ⟨clean, result, ok, -⟩
    · exact iff_of_true ⟨_, failed⟩ bad
    · refine iff_of_false ?_ (by simp [clean])
      rintro ⟨err, failed⟩
      rw [ok] at failed
      cases failed
  · intro clean
    rcases agrees.outcome query free noRange noEmptyAnd with ⟨bad, -⟩ | ⟨-, result, ok, answers⟩
    · rw [clean] at bad
      cases bad
    · exact ⟨result, ok, answers⟩
  · intro left right same
    refine ⟨?_, ?_⟩
    · rintro rfl
      exact agrees.evaluate_and_same left right same free noRange noEmptyAnd
    · rintro rfl
      exact agrees.evaluate_or_same left right same free noRange noEmptyAnd

/-- One object with one tag and one attribute. -/
def shelf : QueryExecutor :=
  { hash := fun value => if value = .int 3 then 0x3b559c24512820af else 0
    tagIndex := TagIndex.new.addMember 5 (ObjectId.fromU64 1)
    kvIndex :=
      KvIndex.new.insert (fun value => if value = .int 3 then 0x3b559c24512820af else 0) 7 (.int 3) 1
    rangeIndex := RangeIndex.new.insert 7 (.int 3) 1
    forwardIndex :=
      (ForwardIndex.new.addAssertion (ObjectId.fromU64 1) (.tag 5) .direct).addAssertion
        (ObjectId.fromU64 1) (.attr 7 (.int 3)) .direct
    ontology := OntologyState.new }

theorem shelf_carries (oid : ObjectId) (assertion : Assertion) :
    shelf.Carries oid assertion ↔
      oid = ObjectId.fromU64 1 ∧ (assertion = .tag 5 ∨ assertion = .attr 7 (.int 3)) := by
  by_cases same : oid = ObjectId.fromU64 1
  · simp [Carries, shelf, ForwardIndex.assertions_of_add, same, ← or_and_right]
  · simp [Carries, shelf, ForwardIndex.assertions_of_add, same]

private theorem shelf_agrees : shelf.Agrees where
  small := by
    intro oid assertion carried
    rw [((shelf_carries oid assertion).mp carried).1]
    decide
  tags := by
    intro tag entry
    have members := TagIndex.mem_add_member TagIndex.new 5 tag (ObjectId.fromU64 1) entry
    rw [show shelf.tagIndex = TagIndex.new.addMember 5 (ObjectId.fromU64 1) from rfl, members]
    simp [shelf_carries, eq_comm]
  kv := by
    intro key value entry
    have members := KvIndex.mem_lookup_insert shelf.hash KvIndex.new 7 key (.int 3) value 1 entry
    rw [show shelf.kvIndex = KvIndex.new.insert shelf.hash 7 (.int 3) 1 from rfl, members]
    simp only [shelf_carries, KvIndex.lookup_new, Finset.notMem_empty, or_false]
    constructor
    · rintro ⟨rfl, sameHash, rfl⟩
      exact ⟨ObjectId.fromU64 1, .int 3, ⟨rfl, Or.inr rfl⟩, sameHash.symm, rfl⟩
    · rintro ⟨oid, held, ⟨rfl, shape⟩, sameHash, same⟩
      simp only [reduceCtorEq, Assertion.attr.injEq, false_or] at shape
      obtain ⟨rfl, rfl⟩ := shape
      exact ⟨rfl, sameHash.symm, same.symm⟩

def onlyThree : Types.Query :=
  .and [.hasTag 5, .hasAttr 7 .eq (.int 3), .not (.hasAttr 7 .ne (.int 3))]

theorem shelf_evaluates :
    ∃ result, shelf.evaluate onlyThree = .ok result ∧
      (result : Set Nat) = ObjectId.low32 '' shelf.answer onlyThree := by
  refine (evaluate_eq_set_semantics shelf onlyThree shelf_agrees ?_ (by decide) (by decide)).2.1
    (by decide)
  intro oid key held value carried asked _
  obtain ⟨-, shape⟩ := (shelf_carries oid _).mp carried
  simp only [reduceCtorEq, Assertion.attr.injEq, false_or] at shape
  have asked : value = .int 3 := by
    simpa [onlyThree, Types.Query.anywhere, Types.Query.anywhereIn, comparesWith, eq_comm] using asked
  rw [shape.2, asked]

end QueryExecutor

end Mimisbrunnr.Query
