import Mimisbrunnr.Ontology.State
import Mimisbrunnr.Storage.Device
import Mimisbrunnr.Types.Query

/-!
# Subscriptions

The dispatcher that turns engine mutations into watch events: an inverted index
from tags to subscriptions, one cached result and one pending queue per
subscription. The hooks that visit every subscription touch each one
separately, so the order of the visits is immaterial; it is ascending here.
-/

namespace Mimisbrunnr.Watch

set_option autoImplicit false

open Mimisbrunnr.Lib
open Mimisbrunnr.Lib.FiniteMap
open Mimisbrunnr.Ontology
open Mimisbrunnr.Types

inductive WatchError where
  | unknownSubscription (id : SubscriptionId)
  | cborEncode (message : String)
  | cborDecode (message : String)
  | bitmap (message : String)
  | storage (error : Storage.StorageError)
deriving DecidableEq, Repr

inductive Retention where
  | atMostOnce
  | bounded (maxEvents : UInt32)
  | unlimited
deriving DecidableEq

structure Subscription where
  id : SubscriptionId
  name : String
  query : Query
  interest : ChangeInterest
  cursor : Nat
  state : SubscriptionState
  retention : Retention
  debounceMs : Option UInt32
  cachedResult : Finset Nat

namespace Subscription

def isActive (sub : Subscription) : Bool := sub.state = .active

end Subscription

structure SubscriptionEngine where
  subscriptions : FMap SubscriptionId Subscription
  tagToSubs : FMap TagId (List SubscriptionId)
  pendingEvents : FMap SubscriptionId (List WatchEvent)
  nextId : SubscriptionId

mutual

/-- Every tag that occurs anywhere in the query, added to an ordered set. -/
def walk (out : List TagId) : Query → List TagId
  | .hasTag tag => SortedSet.insert tag out
  | .isA tag => SortedSet.insert tag out
  | .hasAttr key _ _ => SortedSet.insert key out
  | .related predicate _ => SortedSet.insert predicate out
  | .and children => walkAll out children
  | .or children => walkAll out children
  | .not child => walk out child

def walkAll (out : List TagId) : List Query → List TagId
  | [] => out
  | child :: rest => walkAll (walk out child) rest

end

def extractTags (query : Query) : List TagId := walk [] query

mutual

/-- As `walk`, with `isA` standing for the tag and all tags that imply it. -/
def walkWithOntology (ontology : OntologyState) (out : List TagId) : Query → List TagId
  | .hasTag tag => SortedSet.insert tag out
  | .isA tag =>
      (ontology.dag.tags.filter fun other => other ≠ tag && ontology.dag.isA other tag).foldl
        (fun set other => SortedSet.insert other set) (SortedSet.insert tag out)
  | .hasAttr key _ _ => SortedSet.insert key out
  | .related predicate _ => SortedSet.insert predicate out
  | .and children => walkAllWithOntology ontology out children
  | .or children => walkAllWithOntology ontology out children
  | .not child => walkWithOntology ontology out child

def walkAllWithOntology (ontology : OntologyState) (out : List TagId) : List Query → List TagId
  | [] => out
  | child :: rest =>
      walkAllWithOntology ontology (walkWithOntology ontology out child) rest

end

def tagsForIndexing (query : Query) (ontology : OntologyState) : List TagId :=
  walkWithOntology ontology [] query

/-- The timestamp of an event: the wall clock of node 0. -/
def hlc (tsNs : Int64) : HybridTimestamp :=
  { physicalNs := tsNs
    logical := 0
    nodeId := 0 }

def applyRetention (retention : Retention) (queue : List WatchEvent) : List WatchEvent :=
  match retention with
  | .unlimited => queue
  | .atMostOnce => queue.drop (queue.length - 1)
  | .bounded maxEvents => queue.drop (queue.length - maxEvents.toNat)

def emit (sub : Subscription) (queue : List WatchEvent) (lsn : Nat) (kind : ChangeInterest)
    (event : WatchEvent) : Subscription × List WatchEvent :=
  if sub.interest.containsMask kind then
    ({ sub with cursor := lsn }, applyRetention sub.retention (queue ++ [event]))
  else (sub, queue)

namespace SubscriptionEngine

def new : SubscriptionEngine :=
  { subscriptions := ∅
    tagToSubs := ∅
    pendingEvents := ∅
    nextId := 0 }

def pushTagLink (index : FMap TagId (List SubscriptionId)) (id : SubscriptionId) (tag : TagId) :
    FMap TagId (List SubscriptionId) :=
  index.insert tag ((index.lookup tag).getD [] ++ [id])

def register (s : SubscriptionEngine) (name : String) (query : Query) (interest : ChangeInterest)
    (retention : Retention) (initialResult : Finset Nat) (currentLsn : Nat) :
    SubscriptionEngine × SubscriptionId :=
  let id := (s.nextId + 1) % 2 ^ 64
  ({ nextId := id
     tagToSubs := (extractTags query).foldl (fun index tag => pushTagLink index id tag) s.tagToSubs
     subscriptions :=
       s.subscriptions.insert id
         { id := id
           name := name
           query := query
           interest := interest
           cursor := currentLsn
           state := .active
           retention := retention
           debounceMs := none
           cachedResult := initialResult }
     pendingEvents := s.pendingEvents.insert id [] },
    id)

/-- Drops the identifier from the list of one tag, and the tag with an empty list. -/
def dropTagLink (index : FMap TagId (List SubscriptionId)) (id : SubscriptionId) (tag : TagId) :
    FMap TagId (List SubscriptionId) :=
  match index.lookup tag with
  | none => index
  | some list =>
      let list := list.filter fun sid => sid ≠ id
      if list.isEmpty then index.erase tag else index.insert tag list

def unregister (s : SubscriptionEngine) (id : SubscriptionId) :
    Except WatchError SubscriptionEngine :=
  match s.subscriptions.lookup id with
  | none => .error (.unknownSubscription id)
  | some sub =>
      .ok
        { s with
          subscriptions := s.subscriptions.erase id
          tagToSubs :=
            (extractTags sub.query).foldl (fun index tag => dropTagLink index id tag) s.tagToSubs
          pendingEvents := s.pendingEvents.erase id }

def setState (s : SubscriptionEngine) (id : SubscriptionId) (state : SubscriptionState) :
    SubscriptionEngine :=
  { s with subscriptions := update s.subscriptions id fun sub => { sub with state := state } }

def pause (s : SubscriptionEngine) (id : SubscriptionId) : SubscriptionEngine :=
  s.setState id .dormant

def resume (s : SubscriptionEngine) (id : SubscriptionId) : SubscriptionEngine :=
  s.setState id .active

/-- The pending events, and the engine with the queue emptied. -/
def drain (s : SubscriptionEngine) (id : SubscriptionId) :
    List WatchEvent × SubscriptionEngine :=
  match s.pendingEvents.lookup id with
  | some queue => (queue, { s with pendingEvents := s.pendingEvents.insert id [] })
  | none => ([], s)

def ids (s : SubscriptionEngine) : List SubscriptionId := SortedSet.ofFinset s.subscriptions.keys

theorem mem_ids (s : SubscriptionEngine) (id : SubscriptionId) :
    id ∈ s.ids ↔ ∃ sub, s.subscriptions.lookup id = some sub := by
  rw [ids, SortedSet.mem_of_finset, Finmap.mem_keys, Finmap.mem_iff]

theorem ids_distinct (s : SubscriptionEngine) : s.ids.Nodup :=
  (SortedSet.increasing_of_finset s.subscriptions.keys).imp fun less => ne_of_lt less

def refreshOntologyLinks (s : SubscriptionEngine) (ontology : OntologyState) :
    SubscriptionEngine :=
  { s with
    tagToSubs := s.ids.foldl (fun index id =>
      match s.subscriptions.lookup id with
      | none => index
      | some sub =>
          (tagsForIndexing sub.query ontology).foldl
            (fun index tag => pushTagLink index id tag) index) ∅ }

/-- One subscription's share of a hook: a paused or unknown one is skipped. -/
def visit (s : SubscriptionEngine) (sid : SubscriptionId)
    (handle : Subscription → List WatchEvent → Subscription × List WatchEvent) :
    SubscriptionEngine :=
  match s.subscriptions.lookup sid with
  | none => s
  | some sub =>
      if sub.isActive then
        let (sub, queue) := handle sub ((s.pendingEvents.lookup sid).getD [])
        { s with
          subscriptions := s.subscriptions.insert sid sub
          pendingEvents := s.pendingEvents.insert sid queue }
      else s

def handleTagAdded (oid : ObjectId) (tag : TagId) (lsn : Nat) (timestamp : HybridTimestamp)
    (sub : Subscription) (queue : List WatchEvent) : Subscription × List WatchEvent :=
  if oid.low32 ∈ sub.cachedResult then
    emit sub queue lsn ChangeInterest.tagAdded (.tagAdded oid tag timestamp)
  else
    emit { sub with cachedResult := insert oid.low32 sub.cachedResult } queue lsn
      ChangeInterest.entered (.entered oid timestamp)

def onTagAdded (s : SubscriptionEngine) (oid : ObjectId) (tag : TagId) (lsn : Nat)
    (tsNs : Int64) : SubscriptionEngine :=
  ((s.tagToSubs.lookup tag).getD []).foldl
    (fun s sid => s.visit sid (handleTagAdded oid tag lsn (hlc tsNs))) s

def handleTagRemoved (oid : ObjectId) (tag : TagId) (lsn : Nat) (timestamp : HybridTimestamp)
    (sub : Subscription) (queue : List WatchEvent) : Subscription × List WatchEvent :=
  if oid.low32 ∈ sub.cachedResult then
    let sub := { sub with cachedResult := sub.cachedResult.erase oid.low32 }
    let (sub, queue) := emit sub queue lsn ChangeInterest.tagRemoved (.tagRemoved oid tag timestamp)
    emit sub queue lsn ChangeInterest.exited (.exited oid timestamp)
  else (sub, queue)

def onTagRemoved (s : SubscriptionEngine) (oid : ObjectId) (tag : TagId) (lsn : Nat)
    (tsNs : Int64) : SubscriptionEngine :=
  ((s.tagToSubs.lookup tag).getD []).foldl
    (fun s sid => s.visit sid (handleTagRemoved oid tag lsn (hlc tsNs))) s

def onObjectCreated (s : SubscriptionEngine) (oid : ObjectId) (lsn : Nat) (tsNs : Int64) :
    SubscriptionEngine :=
  s.ids.foldl (fun s sid => s.visit sid fun sub queue =>
    emit sub queue lsn ChangeInterest.created (.created oid (hlc tsNs))) s

def handleObjectDeleted (oid : ObjectId) (lsn : Nat) (timestamp : HybridTimestamp)
    (sub : Subscription) (queue : List WatchEvent) : Subscription × List WatchEvent :=
  if oid.low32 ∈ sub.cachedResult then
    emit { sub with cachedResult := sub.cachedResult.erase oid.low32 } queue lsn
      ChangeInterest.deleted (.deleted oid timestamp)
  else (sub, queue)

def onObjectDeleted (s : SubscriptionEngine) (oid : ObjectId) (lsn : Nat) (tsNs : Int64) :
    SubscriptionEngine :=
  s.ids.foldl (fun s sid => s.visit sid (handleObjectDeleted oid lsn (hlc tsNs))) s

def handleContentChanged (oid : ObjectId) (lsn : Nat) (timestamp : HybridTimestamp)
    (sub : Subscription) (queue : List WatchEvent) : Subscription × List WatchEvent :=
  if oid.low32 ∈ sub.cachedResult then
    emit sub queue lsn ChangeInterest.contentChanged (.contentChanged oid timestamp)
  else (sub, queue)

def onContentChanged (s : SubscriptionEngine) (oid : ObjectId) (lsn : Nat) (tsNs : Int64) :
    SubscriptionEngine :=
  s.ids.foldl (fun s sid => s.visit sid (handleContentChanged oid lsn (hlc tsNs))) s

end SubscriptionEngine

end Mimisbrunnr.Watch
