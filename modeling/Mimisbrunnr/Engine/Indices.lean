import Mimisbrunnr.Index.Attribute
import Mimisbrunnr.Index.Forward
import Mimisbrunnr.Index.Tag
import Mimisbrunnr.Ontology.State

/-!
# What the mutations do to the indices

The four in-memory indices that the engine keeps in step, and the part of every
mutation that changes them. The live path and the replay path of the engine
contain the same index statements for all operations but the deletion of an
object, so each of these functions serves both; `deleteObject` is the live
deletion and `replayDeleteObject` the replayed one.
-/

namespace Mimisbrunnr

set_option autoImplicit false

open Mimisbrunnr.Index
open Mimisbrunnr.Ontology
open Mimisbrunnr.Types

structure Indices where
  forward : ForwardIndex
  tag : TagIndex
  kv : KvIndex
  range : RangeIndex

namespace Indices

def new : Indices :=
  { forward := ForwardIndex.new
    tag := TagIndex.new
    kv := KvIndex.new
    range := RangeIndex.new }

/-- One member of the closure: skipped if the object already carries the tag. -/
def addClosureTag (oid : ObjectId) (tag : TagId) (ix : Indices) (closureTag : TagId) : Indices :=
  if ix.forward.hasTag oid closureTag then ix
  else
    { ix with
      forward := ix.forward.addAssertion oid (.tag closureTag)
        (if closureTag = tag then .direct else .materialized)
      tag := ix.tag.addMember closureTag oid }

def addTag (ontology : OntologyState) (ix : Indices) (oid : ObjectId) (tag : TagId) : Indices :=
  (ontology.materialise [tag]).foldl (addClosureTag oid tag) ix

/-- Removes a tag assertion and, if there was one, the membership. -/
def dropTag (oid : ObjectId) (ix : Indices) (tag : TagId) : Indices :=
  let removed := ix.forward.removeAssertion oid (.tag tag)
  { ix with
    forward := removed.1
    tag := if removed.2 then (ix.tag.removeMember tag oid).1 else ix.tag }

def wasDirect (ix : Indices) (oid : ObjectId) (tag : TagId) : Bool :=
  (ix.forward.assertionsOf oid).any fun entry =>
    decide (entry.1 = .tag tag) && decide (entry.2 = .direct)

def stillImplied (ontology : OntologyState) (ix : Indices) (oid : ObjectId) (tag : TagId) : Bool :=
  (ix.forward.directTags oid).any fun direct => decide (tag ∈ ontology.materialise [direct])

def removeTag (ontology : OntologyState) (ix : Indices) (oid : ObjectId) (tag : TagId) : Indices :=
  let dropped := ix.dropTag oid tag
  if ix.wasDirect oid tag then
    ((dropped.forward.materializedTags oid).filter fun m =>
      !dropped.stillImplied ontology oid m).foldl (dropTag oid) dropped
  else dropped

def setAttr (hash : ValueHash) (ix : Indices) (oid : ObjectId) (key : TagId) (value : Value) :
    Indices :=
  { ix with
    forward := ix.forward.addAssertion oid (.attr key value) .direct
    kv := ix.kv.insert hash key value oid.low32
    range := ix.range.insert key value oid.low32 }

def attrWithHash (hash : ValueHash) (key : TagId) (valueHash : UInt64) : Assertion → Option Value
  | .attr k value => if k = key ∧ hash value = valueHash then some value else none
  | _ => none

/-- The value `remove_attr` selects: the first one of the list that matches. -/
def selectedValue (hash : ValueHash) (ix : Indices) (oid : ObjectId) (key : TagId)
    (valueHash : UInt64) : Option Value :=
  (ix.forward.assertionsOf oid).findSome? fun entry => attrWithHash hash key valueHash entry.1

def removeAttr (hash : ValueHash) (ix : Indices) (oid : ObjectId) (key : TagId)
    (valueHash : UInt64) : Indices :=
  match ix.selectedValue hash oid key valueHash with
  | none => ix
  | some value =>
      { ix with
        forward := (ix.forward.removeAssertion oid (.attr key value)).1
        kv := ix.kv.remove hash key value oid.low32
        range := ix.range.remove key value oid.low32 }

def addRelation (ix : Indices) (oid : ObjectId) (predicate : TagId) (target : ObjectId) :
    Indices :=
  { ix with forward := ix.forward.addAssertion oid (.relation predicate target) .direct }

def removeRelation (ix : Indices) (oid : ObjectId) (predicate : TagId) (target : ObjectId) :
    Indices × Bool :=
  let removed := ix.forward.removeAssertion oid (.relation predicate target)
  ({ ix with forward := removed.1 }, removed.2)

/-- Strips one attribute from the two attribute indices. -/
def stripAttr (hash : ValueHash) (oid : ObjectId) (ix : Indices)
    (entry : Assertion × TagOrigin) : Indices :=
  match entry.1 with
  | .attr key value =>
      { ix with
        kv := ix.kv.remove hash key value oid.low32
        range := ix.range.remove key value oid.low32 }
  | _ => ix

def deleteObject (hash : ValueHash) (ix : Indices) (oid : ObjectId) : Indices :=
  let untagged := { ix with tag := ix.tag.removeObjectFromAll oid }
  let stripped := (untagged.forward.assertionsOf oid).foldl (stripAttr hash oid) untagged
  { stripped with forward := stripped.forward.removeObject oid }

/-- The replayed deletion does not strip the attributes. -/
def replayDeleteObject (ix : Indices) (oid : ObjectId) : Indices :=
  { ix with
    tag := ix.tag.removeObjectFromAll oid
    forward := ix.forward.removeObject oid }

end Indices

end Mimisbrunnr
