import Mathlib.Data.List.Sort
import Mimisbrunnr.Engine.Indices
import Mimisbrunnr.Lib.MachineOrder
import Mimisbrunnr.Lib.SortedEntries
import Mimisbrunnr.Types.Query

/-!
# The query executor

Evaluation of a query tree over the four indices. Leaves are answered by the tag
index, the value index, the range index or a scan of the forward index;
conjunctions intersect the smallest set first and stop at an empty one. A range
scan whose lower bound is above its upper bound does not return: the ordered map
of the standard library stops the program, and `Failure.panicked` stands for
that.
-/

namespace Mimisbrunnr.Query

set_option autoImplicit false

open Mimisbrunnr.Index
open Mimisbrunnr.Lib
open Mimisbrunnr.Lib.FiniteMap
open Mimisbrunnr.Ontology
open Mimisbrunnr.Types

inductive QueryError where
  | unsupportedCmpOp (op : String)
  | parse (position : Nat) (message : String)
  | unknownTag (name : String)
  | unknownOp (op : String)
deriving DecidableEq, Repr

inductive Failure where
  | query (err : QueryError)
  | panicked
deriving DecidableEq, Repr

structure QueryExecutor where
  hash : ValueHash
  tagIndex : TagIndex
  kvIndex : KvIndex
  rangeIndex : RangeIndex
  forwardIndex : ForwardIndex
  ontology : OntologyState

/-- The bitmap entry of an object, none if the local sequence number is wider. -/
def oidLow32 (raw : UInt64) : Option Nat :=
  let local48 := raw.toNat % 2 ^ 48
  if local48 < 2 ^ 32 then some local48 else none

def typeMin : Value → Value
  | .int _ => .int Int64.minValue
  | .float _ => .float 0xfff0000000000000
  | .timestamp _ => .timestamp Int64.minValue
  | .text _ => .text ""
  | .blob _ => .blob []
  | .scoped context inner => .scoped context (typeMin inner)

def typeMax : Value → Value
  | .int _ => .int Int64.maxValue
  | .float _ => .float 0x7ff0000000000000
  | .timestamp _ => .timestamp Int64.maxValue
  -- thirty-two bytes 0xFF, each replaced by the replacement character
  | .text _ => .text (String.ofList (List.replicate 32 '\uFFFD'))
  | .blob _ => .blob (List.replicate 32 0xFF)
  | .scoped context inner => .scoped context (typeMax inner)

/-- The union of the sets with `low ≤ key < high`. -/
def rangeScan (index : RangeIndex) (tag : TagId) (low high : Value) :
    Except Failure (Finset Nat) :=
  let lowKey := NormalisedKey.fromValue low
  let highKey := NormalisedKey.fromValue high
  if highKey.bytes < lowKey.bytes then .error .panicked
  else
    .ok ((index.map.sets.keys.filter fun key =>
      key.1 = tag ∧ ¬ key.2.bytes < lowKey.bytes ∧ key.2.bytes < highKey.bytes).biUnion
        (Bitmaps.members index.map))

namespace QueryExecutor

variable (x : QueryExecutor)

/-- One assertion of a scan of the forward index. -/
def scanEntry (test : Assertion → Bool) (raw : UInt64) (acc : Finset Nat)
    (entry : Assertion × TagOrigin) : Finset Nat :=
  if test entry.1 then
    match oidLow32 raw with
    | some local32 => insert local32 acc
    | none => acc
  else acc

def scan (test : Assertion → Bool) : Finset Nat :=
  (toSorted x.forwardIndex.entries).foldl
    (fun acc object => object.2.foldl (scanEntry test object.1) acc) ∅

def evalHasTag (tag : TagId) : Finset Nat :=
  ((x.tagIndex.stores.lookup tag).map TagStore.members).getD ∅

def objectsWithAttrKey (key : TagId) : Finset Nat :=
  x.scan fun
    | .attr k _ => k = key
    | _ => false

def evalPrefix (key : TagId) (value : Value) : Finset Nat :=
  match value with
  | .text needle =>
      x.scan fun
        | .attr k (.text haystack) => k = key && needle.toList.isPrefixOf haystack.toList
        | _ => false
  | _ => ∅

def evalRelated (predicate : TagId) (target : ObjectId) : Finset Nat :=
  x.scan fun
    | .relation p t => p = predicate && t = target
    | _ => false

def evalRange (key : TagId) (op : CmpOp) (value : Value) : Except Failure (Finset Nat) :=
  let eq := x.rangeIndex.lookup key value
  match op with
  | .lt => rangeScan x.rangeIndex key (typeMin value) value
  | .le => (rangeScan x.rangeIndex key (typeMin value) value).map (· ∪ eq)
  | .gt => (rangeScan x.rangeIndex key value (typeMax value)).map (· \ eq)
  | .ge => (rangeScan x.rangeIndex key value (typeMax value)).map (· ∪ eq)
  | _ => .ok ∅

def evalHasAttr (key : TagId) (op : CmpOp) (value : Value) : Except Failure (Finset Nat) :=
  match op with
  | .eq => .ok (x.kvIndex.lookup x.hash key value)
  | .ne => .ok (x.objectsWithAttrKey key \ x.kvIndex.lookup x.hash key value)
  | .lt => x.evalRange key .lt value
  | .le => x.evalRange key .le value
  | .gt => x.evalRange key .gt value
  | .ge => x.evalRange key .ge value
  | .prefix_ => .ok (x.evalPrefix key value)
  | .contains => .error (.query (.unsupportedCmpOp "Contains"))

/-- One tag of the index: its members count if it implies `tag`. -/
def addDescendant (tag : TagId) (acc : Finset Nat) (storeTag : TagId) : Finset Nat :=
  if tag ∈ x.ontology.materialise [storeTag] then
    match x.tagIndex.stores.lookup storeTag with
    | some store => acc ∪ store.members
    | none => acc
  else acc

def evalIsa (tag : TagId) : Finset Nat :=
  (SortedSet.ofFinset x.tagIndex.stores.keys).foldl (x.addDescendant tag) ∅

def universe_ : Finset Nat :=
  (toSorted x.tagIndex.stores).foldl (fun acc entry => acc ∪ entry.2.members) ∅

/-- The running intersection, left as soon as it is empty. -/
def intersectAll : Finset Nat → List (Finset Nat) → Finset Nat
  | acc, [] => acc
  | acc, other :: rest =>
      let acc := acc ∩ other
      if acc = ∅ then acc else intersectAll acc rest

def evalAnd (bitmaps : List (Finset Nat)) : Finset Nat :=
  let sorted := bitmaps.insertionSort fun a b => a.card ≤ b.card
  match sorted with
  | [] => ∅
  | first :: _ => intersectAll first (Vec.swapRemove sorted 0)

mutual

def evaluate : Types.Query → Except Failure (Finset Nat)
  | .hasTag tag => .ok (x.evalHasTag tag)
  | .hasAttr key op value => x.evalHasAttr key op value
  | .related predicate target => .ok (x.evalRelated predicate target)
  | .and children =>
      match evaluateAll children with
      | .error err => .error err
      | .ok bitmaps => .ok (evalAnd bitmaps)
  | .or children => evaluateOr ∅ children
  | .not child =>
      match evaluate child with
      | .error err => .error err
      | .ok inner => .ok (x.universe_ \ inner)
  | .isA tag => .ok (x.evalIsa tag)

/-- The sets of all children, or the first failure. -/
def evaluateAll : List Types.Query → Except Failure (List (Finset Nat))
  | [] => .ok []
  | child :: rest =>
      match evaluate child with
      | .error err => .error err
      | .ok bitmap =>
          match evaluateAll rest with
          | .error err => .error err
          | .ok bitmaps => .ok (bitmap :: bitmaps)

def evaluateOr (acc : Finset Nat) : List Types.Query → Except Failure (Finset Nat)
  | [] => .ok acc
  | child :: rest =>
      match evaluate child with
      | .error err => .error err
      | .ok bitmap => evaluateOr (acc ∪ bitmap) rest

end

/-- The objects of node 0 with the entries, in the order of the bitmap. -/
def evaluateFull (query : Types.Query) : Except Failure (List ObjectId) :=
  match x.evaluate query with
  | .error err => .error err
  | .ok bitmap => .ok ((SortedSet.ofFinset bitmap).map (ObjectId.fromParts 0))

end QueryExecutor

end Mimisbrunnr.Query
