import Mimisbrunnr.Lib.FiniteMap
import Mimisbrunnr.Lib.Vec
import Mimisbrunnr.Types.Value

/-!
# The forward index

For each object the list of its assertions with their origins. An assertion is
appended without a look at the list, and removal takes the first one that is
equal in the program's sense and fills its place with the last. An object whose
list becomes empty loses its entry, which a reader of the index cannot see.
-/

namespace Mimisbrunnr.Index

set_option autoImplicit false

open Mimisbrunnr.Lib.FiniteMap
open Mimisbrunnr.Lib.Vec
open Mimisbrunnr.Types

structure ForwardIndex where
  entries : FMap UInt64 (List (Assertion × TagOrigin))

namespace ForwardIndex

def new : ForwardIndex := { entries := ∅ }

def assertionsOf (index : ForwardIndex) (oid : ObjectId) : List (Assertion × TagOrigin) :=
  (index.entries.lookup oid.toU64).getD []

def addAssertion (index : ForwardIndex) (oid : ObjectId) (assertion : Assertion)
    (origin : TagOrigin) : ForwardIndex :=
  { entries :=
      index.entries.insert oid.toU64 (index.assertionsOf oid ++ [(assertion, origin)]) }

/-- The comparison of `remove_assertion` with an entry of the list. -/
def matchesEntry (assertion : Assertion) (entry : Assertion × TagOrigin) : Bool :=
  entry.1.eq assertion

def removeAssertion (index : ForwardIndex) (oid : ObjectId) (assertion : Assertion) :
    ForwardIndex × Bool :=
  match index.entries.lookup oid.toU64 with
  | none => (index, false)
  | some list =>
      match list.findIdx? (matchesEntry assertion) with
      | none => (index, false)
      | some position =>
          if swapRemove list position = [] then
            ({ entries := index.entries.erase oid.toU64 }, true)
          else
            ({ entries := index.entries.insert oid.toU64 (swapRemove list position) }, true)

def tagOf : Assertion → Option TagId
  | .tag tag => some tag
  | _ => none

def tagsWithOrigin (index : ForwardIndex) (oid : ObjectId) (origin : TagOrigin) : List TagId :=
  ((index.assertionsOf oid).filter fun entry => entry.2 = origin).filterMap fun entry =>
    tagOf entry.1

def directTags (index : ForwardIndex) (oid : ObjectId) : List TagId :=
  index.tagsWithOrigin oid .direct

def materializedTags (index : ForwardIndex) (oid : ObjectId) : List TagId :=
  index.tagsWithOrigin oid .materialized

def removeObject (index : ForwardIndex) (oid : ObjectId) : ForwardIndex :=
  { entries := index.entries.erase oid.toU64 }

def hasTag (index : ForwardIndex) (oid : ObjectId) (tag : TagId) : Bool :=
  (index.assertionsOf oid).any fun entry => entry.1 = .tag tag

@[simp] theorem assertions_of_new (oid : ObjectId) : new.assertionsOf oid = [] := by
  simp [new, assertionsOf]

theorem to_u64_injective (left right : ObjectId) (same : left.toU64 = right.toU64) :
    left = right := by
  cases left
  cases right
  simpa [ObjectId.toU64] using same

theorem assertions_of_add (index : ForwardIndex) (oid other : ObjectId) (assertion : Assertion)
    (origin : TagOrigin) :
    (index.addAssertion oid assertion origin).assertionsOf other =
      if other = oid then index.assertionsOf oid ++ [(assertion, origin)]
      else index.assertionsOf other := by
  by_cases same : other = oid
  · subst same
    simp [addAssertion, assertionsOf]
  · have different : other.toU64 ≠ oid.toU64 := fun equal =>
      same (to_u64_injective other oid equal)
    simp [addAssertion, assertionsOf, same, different]

theorem assertions_of_remove (index : ForwardIndex) (oid other : ObjectId)
    (assertion : Assertion) :
    (index.removeAssertion oid assertion).1.assertionsOf other =
      if other = oid then removeFirst (matchesEntry assertion) (index.assertionsOf oid)
      else index.assertionsOf other := by
  have different (apart : other ≠ oid) : other.toU64 ≠ oid.toU64 := fun equal =>
    apart (to_u64_injective other oid equal)
  unfold removeAssertion
  rcases stored : index.entries.lookup oid.toU64 with _ | list
  · by_cases same : other = oid
    · subst same
      simp [assertionsOf, stored, removeFirst]
    · simp [same]
  · simp only
    rcases found : list.findIdx? (matchesEntry assertion) with _ | position
    · by_cases same : other = oid
      · subst same
        simp [assertionsOf, stored, removeFirst, found]
      · simp [same]
    · simp only
      by_cases same : other = oid
      · subst same
        by_cases empty : swapRemove list position = []
        · simp [assertionsOf, stored, removeFirst, found, empty]
        · simp [assertionsOf, stored, removeFirst, found, empty]
      · by_cases empty : swapRemove list position = []
        · simp [assertionsOf, empty, same, different same]
        · simp [assertionsOf, empty, same, different same]

theorem remove_assertion_found (index : ForwardIndex) (oid : ObjectId) (assertion : Assertion) :
    (index.removeAssertion oid assertion).2 =
      (index.assertionsOf oid).any (matchesEntry assertion) := by
  unfold removeAssertion assertionsOf
  rcases index.entries.lookup oid.toU64 with _ | list
  · simp
  · simp only [Option.getD_some]
    rcases found : list.findIdx? (matchesEntry assertion) with _ | position
    · have none := List.findIdx?_eq_none_iff.mp found
      symm
      simpa using none
    · have some_ := List.findIdx?_eq_some_iff_getElem.mp found
      cases some_ with
      | intro bound facts =>
          have any : list.any (matchesEntry assertion) = true :=
            List.any_eq_true.mpr ⟨list[position], List.getElem_mem bound, facts.1⟩
          rw [any]
          simp only
          split <;> rfl

theorem assertions_of_remove_object (index : ForwardIndex) (oid other : ObjectId) :
    (index.removeObject oid).assertionsOf other =
      if other = oid then [] else index.assertionsOf other := by
  by_cases same : other = oid
  · subst same
    simp [removeObject, assertionsOf]
  · have different : other.toU64 ≠ oid.toU64 := fun equal =>
      same (to_u64_injective other oid equal)
    simp [removeObject, assertionsOf, same, different]

theorem has_tag_iff (index : ForwardIndex) (oid : ObjectId) (tag : TagId) :
    index.hasTag oid tag = true ↔ ∃ origin, (.tag tag, origin) ∈ index.assertionsOf oid := by
  simp [hasTag]

@[simp] theorem mem_tags_with_origin (index : ForwardIndex) (oid : ObjectId) (origin : TagOrigin)
    (tag : TagId) :
    tag ∈ index.tagsWithOrigin oid origin ↔ (.tag tag, origin) ∈ index.assertionsOf oid := by
  simp only [tagsWithOrigin, List.mem_filterMap, List.mem_filter, decide_eq_true_eq]
  constructor
  · intro found
    cases found with
    | intro entry facts =>
        have shape : entry = (.tag tag, origin) := by
          have isTag := facts.2
          unfold tagOf at isTag
          split at isTag
          · next other same =>
              cases isTag
              exact Prod.ext same facts.1.2
          · cases isTag
        rw [← shape]
        exact facts.1.1
  · intro member
    exact ⟨(.tag tag, origin), ⟨member, rfl⟩, rfl⟩

end ForwardIndex

end Mimisbrunnr.Index
