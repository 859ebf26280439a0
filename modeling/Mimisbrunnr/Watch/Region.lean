import Mimisbrunnr.Index.ForwardRegion
import Mimisbrunnr.Watch.Subscriptions

/-!
# Subscriptions on the device

One record for each subscription, in a table of packed keys whose values are the
CBOR images of the records. Neither the pending events nor the inverted index nor
the last identifier is stored: loading starts with empty queues, links the tags
of the queries again and takes the largest identifier it finds.
-/

namespace Mimisbrunnr.Watch

set_option autoImplicit false

open Mimisbrunnr.Index
open Mimisbrunnr.Lib
open Mimisbrunnr.Lib.FiniteMap
open Mimisbrunnr.Storage
open Mimisbrunnr.Types

structure PersistedSub where
  id : SubscriptionId
  name : String
  query : Query
  interest : ChangeInterest
  cursor : Nat
  state : SubscriptionState
  retention : Retention
  debounceMs : Option UInt32
  cachedResult : List UInt8

structure SubscriptionsKey where
  id : UInt64
  snapshot : UInt32
deriving DecidableEq, Repr

namespace SubscriptionsKey

def rank (key : SubscriptionsKey) : UInt64 ×ₗ UInt32 := toLex (key.id, key.snapshot)

private theorem rank_injective : Function.Injective rank := by
  intro left right same
  cases left
  cases right
  cases same
  rfl

instance : LinearOrder SubscriptionsKey := LinearOrder.lift' rank rank_injective

def packable : PackableKey SubscriptionsKey where
  nrFields := 2
  keyHeaderBytes := 0
  fieldHints := [FieldHints.unsigned, FieldHints.unsigned]
  keyHeader _ := 0
  fieldValues key := [key.id, key.snapshot.toUInt64]
  fromComponents _ fields :=
    match fields with
    | [id, snapshot] =>
        if 2 ^ 32 ≤ snapshot.toNat then .error (.malformed "SubscriptionsKey: snapshot overflow")
        else .ok { id := id, snapshot := snapshot.toUInt32 }
    | _ => .error (.malformed "SubscriptionsKey: wrong field count")

theorem packable_lawful : packable.Lawful where
  some_field := by decide
  few_fields := by decide
  short_header := by decide
  length_hints := rfl
  length_fields _ := rfl
  header_fits _ := Nat.zero_lt_one
  inverse key := by
    have narrow : ¬ 2 ^ 32 ≤ key.snapshot.toUInt64.toNat := by
      rw [UInt32.toNat_toUInt64]
      exact Nat.not_le.mpr key.snapshot.toNat_lt
    simp only [packable]
    rw [if_neg narrow]
    simp

end SubscriptionsKey

/-- What the records and their table need. A CBOR item has a first byte, a vector
has fewer than 2^63 of them, and an identifier is a 64-bit number. -/
structure SubscriptionRegionEnv where
  crc : Crc
  roaring : Roaring
  record : Cbor PersistedSub
  some_byte : ∀ value bytes, record.encode value = .ok bytes → bytes ≠ []
  short : ∀ value bytes, record.encode value = .ok bytes → bytes.length < 2 ^ 63
  narrow : ∀ bytes value, record.decode bytes = .ok value → value.id < 2 ^ 64
  table : Cbor (List (SubscriptionsKey × List UInt8))

def SubscriptionRegionEnv.codec (env : SubscriptionRegionEnv) :
    RunCodec SubscriptionsKey (List UInt8) :=
  .packed SubscriptionsKey.packable rawBytes 0 true env.table

def PersistedSub.ofSubscription (roaring : Roaring) (sub : Subscription) : PersistedSub :=
  { id := sub.id
    name := sub.name
    query := sub.query
    interest := sub.interest
    cursor := sub.cursor
    state := sub.state
    retention := sub.retention
    debounceMs := sub.debounceMs
    cachedResult := roaring.serialise sub.cachedResult }

def encodeRecord (env : SubscriptionRegionEnv) (record : PersistedSub) :
    Except WatchError (SubscriptionsKey × List UInt8) := do
  let bytes ← (env.record.encode record).mapError .cborEncode
  .ok ({ id := UInt64.ofNat record.id, snapshot := 0 }, bytes)

/-- The records of a table; an entry without bytes is skipped. -/
def decodeRecords (env : SubscriptionRegionEnv) (leaves : List (SubscriptionsKey × List UInt8)) :
    Except WatchError (List PersistedSub) :=
  (leaves.filter fun leaf => !leaf.2.isEmpty).mapM fun leaf =>
    (env.record.decode leaf.2).mapError .cborDecode

namespace SubscriptionEngine

def snapshotRecords (roaring : Roaring) (s : SubscriptionEngine) : List PersistedSub :=
  ((toSorted s.subscriptions).map fun entry =>
    PersistedSub.ofSubscription roaring entry.2).insertionSort fun a b => a.id ≤ b.id

def flushToRegion (env : SubscriptionRegionEnv) (s : SubscriptionEngine) (offset : Nat) :
    DeviceM WatchError Unit := do
  let entries ← DeviceM.lift ((s.snapshotRecords env.roaring).mapM (encodeRecord env))
  let entries := entries.insertionSort fun a b => a.1 ≤ b.1
  (flushTable env.crc env.codec .subscriptions entries offset).mapError .storage

/-- Adds the subscription of one record. -/
def addRecord (roaring : Roaring) (s : SubscriptionEngine) (record : PersistedSub) :
    Except WatchError SubscriptionEngine := do
  let cachedResult ← (roaring.deserialise record.cachedResult).mapError .bitmap
  .ok
    { s with
      tagToSubs :=
        (extractTags record.query).foldl (fun index tag => pushTagLink index record.id tag)
          s.tagToSubs
      subscriptions :=
        s.subscriptions.insert record.id
          { id := record.id
            name := record.name
            query := record.query
            interest := record.interest
            cursor := record.cursor
            state := record.state
            retention := record.retention
            debounceMs := record.debounceMs
            cachedResult := cachedResult }
      pendingEvents := s.pendingEvents.insert record.id [] }

def fromRecords (roaring : Roaring) (records : List PersistedSub) :
    Except WatchError SubscriptionEngine :=
  records.foldlM (addRecord roaring)
    { SubscriptionEngine.new with nextId := (records.map PersistedSub.id).foldl max 0 }

/-- The records that the region holds; none when it is blank. -/
def storedRecords (env : SubscriptionRegionEnv) (d : Device) (offset : Nat) :
    Except WatchError (List PersistedSub) := do
  let leaves ← (loadTable env.crc env.codec .subscriptions d offset).mapError .storage
  decodeRecords env leaves

def loadFromRegion (env : SubscriptionRegionEnv) (d : Device) (offset : Nat) :
    Except WatchError SubscriptionEngine := do
  let records ← storedRecords env d offset
  fromRecords env.roaring records

end SubscriptionEngine

end Mimisbrunnr.Watch
