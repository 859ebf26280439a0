import Mimisbrunnr.Lib.FiniteMap
import Mimisbrunnr.Types.Value

/-!
# The tag index

For each tag a store with a membership bitmap; ordered and ranked stores keep a
sequence or scores beside it. The bitmap holds the low 32 bits of the object
identifier, the sequence and the scores the whole identifier.
-/

namespace Mimisbrunnr.Index

set_option autoImplicit false

open Mimisbrunnr.Lib.FiniteMap
open Mimisbrunnr.Types

inductive TagStore where
  | simple (members : Finset Nat)
  | ordered (members : Finset Nat) (sequence : List ObjectId)
  | ranked (members : Finset Nat) (scores : List (ObjectId × Int64))
deriving DecidableEq

namespace TagStore

def newSimple : TagStore := .simple ∅

def members : TagStore → Finset Nat
  | .simple members => members
  | .ordered members _ => members
  | .ranked members _ => members

def mapMembers (change : Finset Nat → Finset Nat) : TagStore → TagStore
  | .simple members => .simple (change members)
  | .ordered members sequence => .ordered (change members) sequence
  | .ranked members scores => .ranked (change members) scores

def addMember (store : TagStore) (oid : ObjectId) : TagStore :=
  store.mapMembers (insert oid.low32)

def removeMember (store : TagStore) (oid : ObjectId) : TagStore × Bool :=
  let present := decide (oid.low32 ∈ store.members)
  match store.mapMembers (·.erase oid.low32) with
  | .simple members => (.simple members, present)
  | .ordered members sequence => (.ordered members (sequence.filter (· ≠ oid)), present)
  | .ranked members scores => (.ranked members (scores.filter (·.1 ≠ oid)), present)

def contains (store : TagStore) (oid : ObjectId) : Bool := decide (oid.low32 ∈ store.members)

@[simp] theorem members_new_simple : newSimple.members = ∅ := rfl

@[simp] theorem members_add_member (store : TagStore) (oid : ObjectId) :
    (store.addMember oid).members = insert oid.low32 store.members := by
  cases store <;> rfl

@[simp] theorem members_remove_member (store : TagStore) (oid : ObjectId) :
    (store.removeMember oid).1.members = store.members.erase oid.low32 := by
  cases store <;> rfl

end TagStore

structure TagIndex where
  stores : FMap TagId TagStore

namespace TagIndex

def new : TagIndex := { stores := ∅ }

def addMember (index : TagIndex) (tag : TagId) (oid : ObjectId) : TagIndex :=
  { stores :=
      index.stores.insert tag
        (((index.stores.lookup tag).getD TagStore.newSimple).addMember oid) }

def removeMember (index : TagIndex) (tag : TagId) (oid : ObjectId) : TagIndex × Bool :=
  match index.stores.lookup tag with
  | none => (index, false)
  | some store =>
      ({ stores := index.stores.insert tag (store.removeMember oid).1 },
        (store.removeMember oid).2)

def contains (index : TagIndex) (tag : TagId) (oid : ObjectId) : Bool :=
  (index.stores.lookup tag).any fun store => store.contains oid

def querySimple (index : TagIndex) (tag : TagId) : Option (Finset Nat) :=
  (index.stores.lookup tag).map TagStore.members

def removeObjectFromAll (index : TagIndex) (oid : ObjectId) : TagIndex :=
  { stores := mapVals (fun store => (store.removeMember oid).1) index.stores }

def membersOf (index : TagIndex) (tag : TagId) : Finset Nat :=
  (index.querySimple tag).getD ∅

@[simp] theorem members_of_new (tag : TagId) : new.membersOf tag = ∅ := by
  simp [new, membersOf, querySimple]

theorem contains_iff (index : TagIndex) (tag : TagId) (oid : ObjectId) :
    index.contains tag oid = true ↔ oid.low32 ∈ index.membersOf tag := by
  unfold contains membersOf querySimple
  rcases index.stores.lookup tag with _ | store
  · simp
  · simp [TagStore.contains]

@[simp] theorem mem_add_member (index : TagIndex) (tag other : TagId) (oid : ObjectId) (entry : Nat) :
    entry ∈ (index.addMember tag oid).membersOf other ↔
      (other = tag ∧ entry = oid.low32) ∨ entry ∈ index.membersOf other := by
  by_cases same : other = tag
  · subst same
    rcases found : index.stores.lookup other with _ | store
    · simp [addMember, membersOf, querySimple, found]
    · simp [addMember, membersOf, querySimple, found]
  · simp [addMember, membersOf, querySimple, same]

@[simp] theorem mem_remove_member (index : TagIndex) (tag other : TagId) (oid : ObjectId) (entry : Nat) :
    entry ∈ (index.removeMember tag oid).1.membersOf other ↔
      ¬ (other = tag ∧ entry = oid.low32) ∧ entry ∈ index.membersOf other := by
  unfold removeMember
  rcases found : index.stores.lookup tag with _ | store
  · by_cases same : other = tag
    · subst same
      simp [membersOf, querySimple, found]
    · simp [same]
  · by_cases same : other = tag
    · subst same
      simp [membersOf, querySimple, found]
    · simp [membersOf, querySimple, same]

@[simp] theorem mem_remove_object_from_all (index : TagIndex) (tag : TagId) (oid : ObjectId)
    (entry : Nat) :
    entry ∈ (index.removeObjectFromAll oid).membersOf tag ↔
      entry ≠ oid.low32 ∧ entry ∈ index.membersOf tag := by
  unfold removeObjectFromAll membersOf querySimple
  rw [lookup_map_vals]
  rcases index.stores.lookup tag with _ | store
  · simp
  · simp

end TagIndex

end Mimisbrunnr.Index
