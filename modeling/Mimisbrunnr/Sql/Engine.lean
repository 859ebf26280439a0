import Mimisbrunnr.Query.Confinement

/-!
# Running a planned SELECT

A planned query is run for its rows or for their number. The rows are skipped and
taken one by one; the number is computed from the size of the bitmap. A debug
build stops the program when the projection does not go with the aggregate.
-/

namespace Mimisbrunnr.Sql

set_option autoImplicit false

open Mimisbrunnr.Lib
open Mimisbrunnr.Query
open Mimisbrunnr.Types

inductive Aggregate where
  | none
  | count
deriving DecidableEq, Repr

inductive Projection where
  | star
  | count
deriving DecidableEq, Repr

structure PlannedQuery where
  query : Types.Query
  limit : Option UInt64
  offset : Option UInt64
  aggregate : Aggregate
  projection : Projection

inductive SqlOutput where
  | rows (ids : List ObjectId)
  | count (card : Nat)
deriving DecidableEq, Repr

/-- The error of an evaluation, or the end of the program. -/
inductive RunFailure where
  | execute (err : QueryError)
  | panicked
deriving DecidableEq, Repr

def RunFailure.ofEvaluation : Failure → RunFailure
  | .query err => .execute err
  | .panicked => .panicked

/-- The ontology, read only when a statement is planned, is left out. -/
structure SqlEngine where
  executor : QueryExecutor
  entries32 : executor.Entries32

/-- The iterator after at most `count` calls of `next`. -/
def advance {α : Type} : Nat → List α → List α
  | 0, rest => rest
  | _ + 1, [] => []
  | count + 1, _ :: rest => advance count rest

namespace SqlEngine

variable (engine : SqlEngine)

def countOf (planned : PlannedQuery) (total : Nat) : Nat :=
  match planned.offset, planned.limit with
  | none, none => total
  | offset, limit =>
      let off := (offset.getD 0).toNat
      let afterOffset := total - off
      match limit with
      | some l => min afterOffset l.toNat
      | none => afterOffset

def rowsOf (planned : PlannedQuery) (ids : List ObjectId) : List ObjectId :=
  let ids := ids.insertionSort fun left right => left.raw ≤ right.raw
  let iter :=
    match planned.offset with
    | some off => advance off.toNat ids
    | none => ids
  match planned.limit with
  | some l => iter.take l.toNat
  | none => iter

def run (debugAssertions : Bool) (planned : PlannedQuery) : Except RunFailure SqlOutput :=
  match planned.aggregate with
  | .count =>
      match engine.executor.evaluate planned.query with
      | .error err => .error (.ofEvaluation err)
      | .ok bitmap =>
          let card := countOf planned bitmap.card
          if debugAssertions = true ∧ planned.projection ≠ .count then .error .panicked
          else .ok (.count card)
  | .none =>
      if debugAssertions = true ∧ planned.projection ≠ .star then .error .panicked
      else
        match engine.executor.evaluateFull planned.query with
        | .error err => .error (.ofEvaluation err)
        | .ok ids => .ok (.rows (rowsOf planned ids))

end SqlEngine

namespace PlannedQuery

variable (planned : PlannedQuery)

/-- `SELECT *` of the query. -/
def listed : PlannedQuery := { planned with aggregate := .none, projection := .star }

/-- `SELECT COUNT(*)` of the query. -/
def counted : PlannedQuery := { planned with aggregate := .count, projection := .count }

def unlimited : PlannedQuery := { planned with limit := none, offset := none }

/-- `LIMIT size OFFSET index * size`. -/
def page (size : UInt64) (index : Nat) : PlannedQuery :=
  { planned with limit := some size, offset := some (UInt64.ofNat (index * size.toNat)) }

end PlannedQuery

/-- The rows between the offset and the limit. -/
def window {α : Type} (limit offset : Option UInt64) (rows : List α) : List α :=
  let later := rows.drop (offset.getD 0).toNat
  match limit with
  | some l => later.take l.toNat
  | none => later

private theorem advance_eq_drop {α : Type} (count : Nat) :
    ∀ rows : List α, advance count rows = rows.drop count := by
  induction count with
  | zero =>
      intro rows
      rfl
  | succ count ih =>
      intro rows
      cases rows with
      | nil => rfl
      | cons row rest => exact ih rest

theorem count_of_window {α : Type} (planned : PlannedQuery) (rows : List α) :
    SqlEngine.countOf planned rows.length = (window planned.limit planned.offset rows).length := by
  unfold SqlEngine.countOf window
  cases limit : planned.limit with
  | none =>
      cases offset : planned.offset with
      | none => rfl
      | some off => exact List.length_drop.symm
  | some l =>
      have both : (List.take l.toNat (rows.drop (planned.offset.getD 0).toNat)).length =
          min (rows.length - (planned.offset.getD 0).toNat) l.toNat := by
        rw [List.length_take, List.length_drop, Nat.min_comm]
      cases offset : planned.offset with
      | none =>
          rw [offset] at both
          exact both.symm
      | some off =>
          rw [offset] at both
          exact both.symm

private theorem rows_of_window (planned : PlannedQuery) (ids : List ObjectId)
    (sorted : ids.Pairwise fun left right => left.raw < right.raw) :
    SqlEngine.rowsOf planned ids = window planned.limit planned.offset ids := by
  have kept : (ids.insertionSort fun left right => left.raw ≤ right.raw) = ids :=
    List.Pairwise.insertionSort_eq (sorted.imp fun less => UInt64.le_of_lt less)
  unfold SqlEngine.rowsOf window
  rw [kept]
  cases planned.offset with
  | none => rfl
  | some off => simp only [advance_eq_drop, Option.getD_some]

private theorem window_sublist {α : Type} (limit offset : Option UInt64) (rows : List α) :
    (window limit offset rows).Sublist rows := by
  cases limit with
  | none => exact List.drop_sublist _ _
  | some l => exact (List.take_sublist _ _).trans (List.drop_sublist _ _)

/-- The windows of one size, one behind the other, are the pieces of the rows. -/
theorem windows_eq_pieces {α : Type} (size : UInt64) (count : Nat)
    (fits : ∀ index < count, index * size.toNat < 2 ^ 64) (rows : List α) :
    ((List.range count).map fun index =>
      window (some size) (some (UInt64.ofNat (index * size.toNat))) rows) =
        Vec.pieces size.toNat count rows := by
  rw [Vec.pieces_eq_map]
  apply List.map_congr_left
  intro index listed
  have exact_ : (UInt64.ofNat (index * size.toNat)).toNat = index * size.toNat :=
    UInt64.toNat_ofNat_of_lt' (fits index (List.mem_range.mp listed))
  rw [window, Option.getD_some, exact_]

namespace SqlEngine

variable (engine : SqlEngine)

/-- All the objects of a query. -/
def found (query : Types.Query) : Except RunFailure (List ObjectId) :=
  match engine.executor.evaluate query with
  | .error err => .error (.ofEvaluation err)
  | .ok bitmap => .ok ((SortedSet.ofFinset bitmap).map (ObjectId.fromParts 0))

theorem found_parts (query : Types.Query) (rows : List ObjectId)
    (all : engine.found query = .ok rows) :
    ∃ bitmap, (∀ entry ∈ bitmap, entry < 2 ^ 32) ∧
      (SortedSet.ofFinset bitmap).map (ObjectId.fromParts 0) = rows := by
  unfold found at all
  cases evaluated : engine.executor.evaluate query with
  | error err =>
      rw [evaluated] at all
      cases all
  | ok bitmap =>
      rw [evaluated] at all
      exact ⟨bitmap, engine.entries32.result_lt query bitmap evaluated, Except.ok.inj all⟩

theorem found_increasing (query : Types.Query) (rows : List ObjectId)
    (all : engine.found query = .ok rows) : rows.Pairwise fun left right => left.raw < right.raw := by
  obtain ⟨bitmap, small, rfl⟩ := engine.found_parts query rows all
  apply List.pairwise_map.mpr
  apply (SortedSet.increasing_of_finset bitmap).imp_of_mem
  intro left right leftMember rightMember less
  have leftSmall := small left ((SortedSet.mem_of_finset bitmap left).mp leftMember)
  have rightSmall := small right ((SortedSet.mem_of_finset bitmap right).mp rightMember)
  rw [UInt64.lt_iff_toNat_lt, ObjectId.raw_from_parts, ObjectId.raw_from_parts]
  omega

private theorem found_length (query : Types.Query) (rows : List ObjectId)
    (all : engine.found query = .ok rows) : rows.length < 2 ^ 64 := by
  obtain ⟨bitmap, small, rfl⟩ := engine.found_parts query rows all
  have within : bitmap ⊆ Finset.range (2 ^ 32) :=
    fun entry member => Finset.mem_range.mpr (small entry member)
  have bound := Finset.card_le_card within
  rw [Finset.card_range] at bound
  rw [List.length_map, SortedSet.length_of_finset]
  omega

private theorem run_listed (debug : Bool) (planned : PlannedQuery) :
    engine.run debug planned.listed =
      (engine.found planned.query).map fun rows => .rows (window planned.limit planned.offset rows) := by
  have increasing := engine.found_increasing planned.query
  unfold found at increasing ⊢
  -- the assertion on the projection holds
  simp only [run, PlannedQuery.listed, ne_eq, not_true_eq_false, and_false, if_false,
    QueryExecutor.evaluateFull]
  cases evaluated : engine.executor.evaluate planned.query with
  | error err => rfl
  | ok bitmap =>
      rw [evaluated] at increasing
      exact congrArg (fun rows => Except.ok (SqlOutput.rows rows))
        (rows_of_window planned.listed _ (increasing _ rfl))

private theorem run_counted (debug : Bool) (planned : PlannedQuery) :
    engine.run debug planned.counted =
      (engine.found planned.query).map fun rows =>
        .count (window planned.limit planned.offset rows).length := by
  unfold found
  simp only [run, PlannedQuery.counted, ne_eq, not_true_eq_false, and_false, if_false]
  cases evaluated : engine.executor.evaluate planned.query with
  | error err => rfl
  | ok bitmap =>
      have total : ((SortedSet.ofFinset bitmap).map (ObjectId.fromParts 0)).length = bitmap.card := by
        rw [List.length_map, SortedSet.length_of_finset]
      have counted := count_of_window planned.counted
        ((SortedSet.ofFinset bitmap).map (ObjectId.fromParts 0))
      rw [total] at counted
      exact congrArg (fun card => Except.ok (SqlOutput.count card)) counted

theorem enough_pages (size : UInt64) (some_ : size ≠ 0) (total : Nat) (small : total < 2 ^ 64) :
    ∃ count, total ≤ count * size.toNat ∧ ∀ index < count, index * size.toNat < 2 ^ 64 := by
  have positive : 0 < size.toNat := by
    rw [Nat.pos_iff_ne_zero]
    intro zero
    exact some_ (UInt64.toNat_inj.mp zero)
  refine ⟨total / size.toNat + 1, ?_, ?_⟩
  · have division := Nat.div_add_mod total size.toNat
    have rest := Nat.mod_lt total positive
    rw [Nat.succ_mul, Nat.mul_comm]
    omega
  · intro index below
    have reached : index * size.toNat ≤ total / size.toNat * size.toNat :=
      Nat.mul_le_mul_right _ (Nat.le_of_lt_succ below)
    have within := Nat.div_mul_le_self total size.toNat
    omega

/-- A count is the number of the rows, the rows increase, and the pages of every size have the
rows of the query without a limit between them, in order. -/
theorem count_and_pages (debug : Bool) (planned : PlannedQuery) :
    (∃ result : Except RunFailure (List ObjectId),
      engine.run debug planned.listed = result.map .rows ∧
        engine.run debug planned.counted = result.map (fun rows => .count rows.length) ∧
        ∀ rows, result = .ok rows → rows.Pairwise fun left right => left.raw < right.raw) ∧
    ∀ rows, engine.run debug planned.unlimited.listed = .ok (.rows rows) →
      ∀ size : UInt64, size ≠ 0 →
        (∃ count, rows.length ≤ count * size.toNat ∧ ∀ index < count, index * size.toNat < 2 ^ 64) ∧
        ∀ count, rows.length ≤ count * size.toNat → (∀ index < count, index * size.toNat < 2 ^ 64) →
          ∃ pages : List (List ObjectId), pages.flatten = rows ∧
            (List.range count).map (fun index => engine.run debug (planned.page size index).listed) =
              pages.map fun page => .ok (.rows page) := by
  constructor
  · refine ⟨(engine.found planned.query).map (window planned.limit planned.offset), ?_, ?_, ?_⟩
    · rw [run_listed]
      cases engine.found planned.query <;> rfl
    · rw [run_counted]
      cases engine.found planned.query <;> rfl
    · intro rows result
      cases all : engine.found planned.query with
      | error err =>
          rw [all] at result
          cases result
      | ok whole =>
          rw [all] at result
          cases result
          exact (engine.found_increasing planned.query whole all).sublist
            (window_sublist planned.limit planned.offset whole)
  · intro rows listed size some_
    have all : engine.found planned.query = .ok rows := by
      rw [run_listed] at listed
      cases found : engine.found planned.query with
      | error err =>
          simp only [PlannedQuery.unlimited, found] at listed
          cases listed
      | ok whole =>
          simp only [PlannedQuery.unlimited, found] at listed
          cases listed
          rfl
    refine ⟨enough_pages size some_ rows.length (engine.found_length planned.query rows all), ?_⟩
    intro count enough fits
    refine ⟨Vec.pieces size.toNat count rows, Vec.flatten_pieces _ _ rows enough, ?_⟩
    rw [← windows_eq_pieces size count fits rows, List.map_map]
    apply List.map_congr_left
    intro index _
    rw [run_listed]
    simp only [PlannedQuery.page, all]
    rfl

/-- Three objects with tag 5, and nothing else. -/
def threeTagged : SqlEngine where
  executor :=
    { hash := fun _ => 0
      tagIndex :=
        ((Index.TagIndex.new.addMember 5 (ObjectId.fromParts 0 1)).addMember 5
          (ObjectId.fromParts 0 2)).addMember 5 (ObjectId.fromParts 0 7)
      kvIndex := Index.KvIndex.new
      rangeIndex := Index.RangeIndex.new
      forwardIndex := Index.ForwardIndex.new
      ontology := Ontology.OntologyState.new }
  entries32 :=
    { tags := by
        intro tag entry member
        simp only [Index.TagIndex.mem_add_member, Index.TagIndex.members_of_new] at member
        rcases member with ⟨-, rfl⟩ | ⟨-, rfl⟩ | ⟨-, rfl⟩ | nothing
        · exact Nat.mod_lt _ (by decide)
        · exact Nat.mod_lt _ (by decide)
        · exact Nat.mod_lt _ (by decide)
        · cases nothing
      kv := fun _ _ nothing => by cases nothing
      range := fun _ _ nothing => by cases nothing }

/-- Two pages of two rows have the three objects. -/
theorem three_tagged_paged :
    let planned : PlannedQuery :=
      { query := .hasTag 5, limit := none, offset := none, aggregate := .none, projection := .star }
    ∃ pages : List (List ObjectId),
      pages.flatten = [ObjectId.fromParts 0 1, ObjectId.fromParts 0 2, ObjectId.fromParts 0 7] ∧
        (List.range 2).map (fun index => threeTagged.run true (planned.page 2 index).listed) =
          pages.map fun page => .ok (.rows page) :=
  ((threeTagged.count_and_pages true _).2 _ (by decide +kernel) 2 (by decide)).2 2 (by decide)
    (by decide)

end SqlEngine

end Mimisbrunnr.Sql
