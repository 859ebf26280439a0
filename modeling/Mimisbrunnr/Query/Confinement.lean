import Mimisbrunnr.Query.RangeScan
import Mimisbrunnr.Query.SetSemantics

/-!
# Where results come from

An evaluation makes no entry of its own. Every result lies in any set that has the
entries of the three indices and those of the objects with an attribute or a
relation.
-/

namespace Mimisbrunnr.Query

set_option autoImplicit false

open Mimisbrunnr.Index
open Mimisbrunnr.Lib
open Mimisbrunnr.Types

namespace QueryExecutor

variable (x : QueryExecutor)

/-- The indices name no entries beyond the set. -/
structure Confined (known : Set Nat) : Prop where
  tags : ∀ tag, ∀ entry ∈ x.tagIndex.membersOf tag, entry ∈ known
  kv : ∀ key value, ∀ entry ∈ x.kvIndex.lookup x.hash key value, entry ∈ known
  range : ∀ tag key, ∀ entry ∈ Bitmaps.members x.rangeIndex.map (tag, key), entry ∈ known
  attrs : ∀ oid key value entry, x.Carries oid (.attr key value) →
    oidLow32 oid.toU64 = some entry → entry ∈ known
  relations : ∀ oid predicate target entry, x.Carries oid (.relation predicate target) →
    oidLow32 oid.toU64 = some entry → entry ∈ known

namespace Confined

variable {x} {known : Set Nat}

theorem attr_scan (confined : x.Confined known) (test : Assertion → Bool)
    (only : ∀ assertion, test assertion = true → ∃ key value, assertion = .attr key value)
    (entry : Nat) (found : entry ∈ x.scan test) : entry ∈ known := by
  obtain ⟨oid, assertion, fits, carried, passes⟩ := (x.mem_scan test entry).mp found
  obtain ⟨key, value, shape⟩ := only assertion passes
  exact confined.attrs oid key value entry (shape ▸ carried) fits

private theorem with_key (confined : x.Confined known) (key : TagId) (entry : Nat)
    (found : entry ∈ x.objectsWithAttrKey key) : entry ∈ known := by
  apply confined.attr_scan _ _ entry found
  intro assertion passes
  cases assertion with
  | attr k value => exact ⟨k, value, rfl⟩
  | tag tag => cases passes
  | relation predicate target => cases passes

private theorem with_prefix (confined : x.Confined known) (key : TagId) (value : Value)
    (entry : Nat)
    (found : entry ∈ x.evalPrefix key value) : entry ∈ known := by
  unfold evalPrefix at found
  split at found
  · apply confined.attr_scan _ _ entry found
    intro assertion passes
    cases assertion with
    | attr k value => exact ⟨k, value, rfl⟩
    | tag tag => cases passes
    | relation predicate target => cases passes
  · cases found

private theorem related (confined : x.Confined known) (predicate : TagId) (target : ObjectId)
    (entry : Nat)
    (found : entry ∈ x.evalRelated predicate target) : entry ∈ known := by
  obtain ⟨oid, assertion, fits, carried, passes⟩ := (x.mem_scan _ entry).mp found
  cases assertion with
  | relation p t => exact confined.relations oid p t entry carried fits
  | tag tag => cases passes
  | attr key value => cases passes

private theorem universe_ (confined : x.Confined known) (entry : Nat)
    (found : entry ∈ x.universe_) :
    entry ∈ known := by
  obtain ⟨tag, member⟩ := (mem_universe entry).mp found
  exact confined.tags tag entry member

private theorem scanned (confined : x.Confined known) (key : TagId) (low high : Value)
    (set : Finset Nat)
    (found : rangeScan x.rangeIndex key low high = .ok set) (entry : Nat) (member : entry ∈ set) :
    entry ∈ known := by
  rw [mem_range_scan x.rangeIndex key low high set found entry] at member
  obtain ⟨normalised, -, -, stored⟩ := member
  exact confined.range key normalised entry stored

private theorem compared (confined : x.Confined known) (key : TagId) (op : CmpOp) (value : Value)
    (result : Finset Nat) (evaluated : x.evaluate (.hasAttr key op value) = .ok result)
    (entry : Nat) (member : entry ∈ result) : entry ∈ known := by
  have mapped (f : Finset Nat → Finset Nat) (low high : Value)
      (within : ∀ set, entry ∈ f set → entry ∈ set ∨ entry ∈ known)
      (found : (rangeScan x.rangeIndex key low high).map f = .ok result) : entry ∈ known := by
    cases scanned : rangeScan x.rangeIndex key low high with
    | error err =>
        rw [scanned] at found
        cases found
    | ok set =>
        rw [scanned] at found
        cases found
        cases within set member with
        | inl inside => exact confined.scanned key low high set scanned entry inside
        | inr given => exact given
  have held (set : Finset Nat) (either : entry ∈ set ∪ x.rangeIndex.lookup key value) :
      entry ∈ set ∨ entry ∈ known :=
    (Finset.mem_union.mp either).imp id (confined.range key _ entry)
  rw [evaluate] at evaluated
  cases op with
  | eq =>
      cases evaluated
      exact confined.kv key value entry member
  | ne =>
      cases evaluated
      exact confined.with_key key entry (Finset.mem_sdiff.mp member).1
  | lt => exact confined.scanned key _ _ result evaluated entry member
  | le => exact mapped _ _ _ held evaluated
  | gt => exact mapped _ _ _ (fun set both => Or.inl (Finset.mem_sdiff.mp both).1) evaluated
  | ge => exact mapped _ _ _ held evaluated
  | prefix_ =>
      cases evaluated
      exact confined.with_prefix key value entry member
  | contains => cases evaluated

theorem result (confined : x.Confined known) (query : Types.Query) :
    ∀ result, x.evaluate query = .ok result → ∀ entry ∈ result, entry ∈ known := by
  induction query using Types.Query.tree_induction with
  | hasTag tag =>
      intro result evaluated entry member
      cases evaluated
      exact confined.tags tag entry member
  | hasAttr key op value => exact confined.compared key op value
  | related predicate target =>
      intro result evaluated entry member
      cases evaluated
      exact confined.related predicate target entry member
  | and children ih =>
      intro result evaluated entry member
      obtain ⟨bitmaps, each, rfl⟩ := x.evaluate_and_parts children result evaluated
      cases each with
      | nil => cases member
      | cons first rest =>
          have inside := (mem_eval_and _ (List.cons_ne_nil _ _) entry).mp member
          exact ih _ List.mem_cons_self _ first entry (inside _ List.mem_cons_self)
  | or children ih =>
      intro result evaluated entry member
      obtain ⟨bitmaps, each, rfl⟩ := x.evaluate_or_parts children result evaluated
      cases (mem_foldl_union bitmaps ∅ entry).mp member with
      | inl nothing => cases nothing
      | inr found =>
          obtain ⟨bitmap, listed, inside⟩ := found
          obtain ⟨child, asked, same⟩ := Vec.exists_left_of_mem each bitmap listed
          exact ih child asked bitmap same entry inside
  | not child ih =>
      intro result evaluated entry member
      obtain ⟨bitmap, -, rfl⟩ := x.evaluate_not_parts child result evaluated
      exact confined.universe_ entry (Finset.mem_sdiff.mp member).1
  | isA tag =>
      intro result evaluated entry member
      cases evaluated
      obtain ⟨held, -, listed⟩ := (mem_eval_isa tag entry).mp member
      exact confined.tags held entry listed

end Confined

/-- A bitmap has 32-bit entries. -/
structure Entries32 : Prop where
  tags : ∀ tag, ∀ entry ∈ x.tagIndex.membersOf tag, entry < 2 ^ 32
  kv : ∀ key, ∀ entry ∈ Bitmaps.members x.kvIndex.entries key, entry < 2 ^ 32
  range : ∀ key, ∀ entry ∈ Bitmaps.members x.rangeIndex.map key, entry < 2 ^ 32

private theorem oid_low32_lt (raw : UInt64) (entry : Nat) (fits : oidLow32 raw = some entry) :
    entry < 2 ^ 32 := by
  simp only [oidLow32] at fits
  split at fits
  · next small =>
      cases fits
      exact small
  · cases fits

variable {x} in
theorem Entries32.result_lt (narrow : x.Entries32) (query : Types.Query) (result : Finset Nat)
    (evaluated : x.evaluate query = .ok result) : ∀ entry ∈ result, entry < 2 ^ 32 := by
  have confined : x.Confined {entry | entry < 2 ^ 32} :=
    { tags := narrow.tags
      kv := fun key value => narrow.kv (key, x.hash value)
      range := fun tag key => narrow.range (tag, key)
      attrs := fun _ _ _ entry _ fits => oid_low32_lt _ entry fits
      relations := fun _ _ _ entry _ fits => oid_low32_lt _ entry fits }
  exact confined.result query result evaluated

end QueryExecutor

end Mimisbrunnr.Query
