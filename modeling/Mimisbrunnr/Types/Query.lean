import Mimisbrunnr.Types.Value

/-!
# Queries and watch events

The query algebra and the data of subscriptions. The interest mask is the raw
32-bit number; `containsMask` is the test that every bit of a mask is set.
-/

namespace Mimisbrunnr.Types

set_option autoImplicit false

inductive CmpOp where
  | eq
  | ne
  | lt
  | le
  | gt
  | ge
  | prefix_
  | contains
deriving DecidableEq, Repr

inductive Query where
  | hasTag (tag : TagId)
  | hasAttr (key : TagId) (op : CmpOp) (value : Value)
  | related (predicate : TagId) (target : ObjectId)
  | and (children : List Query)
  | or (children : List Query)
  | not (child : Query)
  | isA (tag : TagId)

namespace Query

/-- A proof for every query, from the leaves up. -/
@[elab_as_elim]
theorem tree_induction {motive : Query → Prop}
    (hasTag : ∀ tag, motive (.hasTag tag))
    (hasAttr : ∀ key op value, motive (.hasAttr key op value))
    (related : ∀ predicate target, motive (.related predicate target))
    (and : ∀ children, (∀ child ∈ children, motive child) → motive (.and children))
    (or : ∀ children, (∀ child ∈ children, motive child) → motive (.or children))
    (not : ∀ child, motive child → motive (.not child))
    (isA : ∀ tag, motive (.isA tag)) : ∀ query, motive query
  | .hasTag tag => hasTag tag
  | .hasAttr key op value => hasAttr key op value
  | .related predicate target => related predicate target
  | .and children =>
      and children fun child _ => tree_induction hasTag hasAttr related and or not isA child
  | .or children =>
      or children fun child _ => tree_induction hasTag hasAttr related and or not isA child
  | .not child => not child (tree_induction hasTag hasAttr related and or not isA child)
  | .isA tag => isA tag

mutual

/-- The test holds at some node of the tree. -/
def anywhere (test : Query → Bool) : Query → Bool
  | .and children => test (.and children) || anywhereIn test children
  | .or children => test (.or children) || anywhereIn test children
  | .not child => test (.not child) || anywhere test child
  | leaf => test leaf

def anywhereIn (test : Query → Bool) : List Query → Bool
  | [] => false
  | child :: rest => anywhere test child || anywhereIn test rest

end

theorem anywhere_in_iff (test : Query → Bool) (children : List Query) :
    anywhereIn test children = true ↔ ∃ child ∈ children, child.anywhere test = true := by
  induction children with
  | nil => simp [anywhereIn]
  | cons child rest ih => simp [anywhereIn, ih]

theorem nowhere_in_iff (test : Query → Bool) (children : List Query) :
    anywhereIn test children = false ↔ ∀ child ∈ children, child.anywhere test = false := by
  rw [← Bool.not_eq_true, anywhere_in_iff]
  simp

mutual

/-- What the nodes of the tree hold, in the order of its text. -/
def collect {α : Type} (held : Query → List α) : Query → List α
  | .and children => held (.and children) ++ collectIn held children
  | .or children => held (.or children) ++ collectIn held children
  | .not child => held (.not child) ++ collect held child
  | leaf => held leaf

def collectIn {α : Type} (held : Query → List α) : List Query → List α
  | [] => []
  | child :: rest => collect held child ++ collectIn held rest

end

theorem mem_collect_in {α : Type} (held : Query → List α) (children : List Query) (item : α) :
    item ∈ collectIn held children ↔ ∃ child ∈ children, item ∈ child.collect held := by
  induction children with
  | nil => simp [collectIn]
  | cons child rest ih => simp [collectIn, ih]

theorem mem_collect_and {α : Type} (held : Query → List α) (children : List Query)
    (nothing : held (.and children) = []) (item : α) :
    item ∈ (Query.and children).collect held ↔ ∃ child ∈ children, item ∈ child.collect held := by
  rw [collect, nothing, List.nil_append, mem_collect_in]

theorem mem_collect_or {α : Type} (held : Query → List α) (children : List Query)
    (nothing : held (.or children) = []) (item : α) :
    item ∈ (Query.or children).collect held ↔ ∃ child ∈ children, item ∈ child.collect held := by
  rw [collect, nothing, List.nil_append, mem_collect_in]

def ownTags : Query → List TagId
  | .hasTag tag => [tag]
  | .hasAttr key _ _ => [key]
  | .related predicate _ => [predicate]
  | .isA tag => [tag]
  | _ => []

def ownValues : Query → List Value
  | .hasAttr _ _ value => [value]
  | _ => []

def tags (query : Query) : List TagId := query.collect ownTags

def values (query : Query) : List Value := query.collect ownValues

end Query

abbrev SubscriptionId := Nat

abbrev ChangeInterest := UInt32

namespace ChangeInterest

def tagAdded : ChangeInterest := 1
def tagRemoved : ChangeInterest := 2
def contentChanged : ChangeInterest := 4
def created : ChangeInterest := 8
def deleted : ChangeInterest := 16
def entered : ChangeInterest := 32
def exited : ChangeInterest := 64

def all : ChangeInterest :=
  tagAdded ||| tagRemoved ||| contentChanged ||| created ||| deleted ||| entered ||| exited

def containsMask (interest mask : ChangeInterest) : Bool := (interest &&& mask) = mask

end ChangeInterest

inductive SubscriptionState where
  | active
  | dormant
deriving DecidableEq, Repr

inductive WatchEvent where
  | entered (oid : ObjectId) (timestamp : HybridTimestamp)
  | exited (oid : ObjectId) (timestamp : HybridTimestamp)
  | tagAdded (oid : ObjectId) (tag : TagId) (timestamp : HybridTimestamp)
  | tagRemoved (oid : ObjectId) (tag : TagId) (timestamp : HybridTimestamp)
  | contentChanged (oid : ObjectId) (timestamp : HybridTimestamp)
  | created (oid : ObjectId) (timestamp : HybridTimestamp)
  | deleted (oid : ObjectId) (timestamp : HybridTimestamp)
deriving DecidableEq, Repr

end Mimisbrunnr.Types
