import Mimisbrunnr.Watch.Region

/-!
# Subscriptions are read back

A flush that succeeds writes to its region only, and from the region the records
of the subscriptions are read back. They have distinct identifiers, so that
loading them restores every subscription.
-/

namespace Mimisbrunnr.Watch

set_option autoImplicit false

open Mimisbrunnr.Index
open Mimisbrunnr.Lib
open Mimisbrunnr.Lib.FiniteMap
open Mimisbrunnr.Storage
open Mimisbrunnr.Types

/-- The subscription that a record stands for, with its result decoded. -/
def PersistedSub.toSubscription (record : PersistedSub) (cachedResult : Finset Nat) :
    Subscription :=
  { id := record.id
    name := record.name
    query := record.query
    interest := record.interest
    cursor := record.cursor
    state := record.state
    retention := record.retention
    debounceMs := record.debounceMs
    cachedResult := cachedResult }

private theorem encode_record_ok (env : SubscriptionRegionEnv) (record : PersistedSub)
    (leaf : SubscriptionsKey × List UInt8) (ok : encodeRecord env record = .ok leaf) :
    leaf.1 = ⟨UInt64.ofNat record.id, 0⟩ ∧ env.record.encode record = .ok leaf.2 := by
  unfold encodeRecord at ok
  cases encoded : env.record.encode record with
  | error message =>
      rw [encoded] at ok
      cases ok
  | ok bytes =>
      rw [encoded] at ok
      cases ok
      exact ⟨rfl, rfl⟩

/-- Records that could all be encoded are decoded again. -/
theorem decode_encoded_records (env : SubscriptionRegionEnv) (records : List PersistedSub)
    (leaves : List (SubscriptionsKey × List UInt8))
    (ok : records.mapM (encodeRecord env) = .ok leaves) :
    leaves.map Prod.fst = (records.map fun record => ⟨UInt64.ofNat record.id, 0⟩) ∧
      (∀ leaf ∈ leaves, leaf.2.length < 2 ^ 63) ∧ decodeRecords env leaves = .ok records := by
  induction records generalizing leaves with
  | nil =>
      cases ok
      exact ⟨rfl, by simp, rfl⟩
  | cons record records ih =>
      rw [List.mapM_cons] at ok
      cases encoded : encodeRecord env record with
      | error err =>
          rw [encoded] at ok
          cases ok
      | ok leaf =>
          rw [encoded] at ok
          cases later : records.mapM (encodeRecord env) with
          | error err =>
              rw [later] at ok
              cases ok
          | ok rest =>
              rw [later] at ok
              cases ok
              obtain ⟨keys, short, back⟩ := ih rest later
              obtain ⟨key, bytes⟩ := encode_record_ok env record leaf encoded
              refine ⟨?_, ?_, ?_⟩
              · rw [List.map_cons, List.map_cons, keys, key]
              · intro other member
                rcases List.mem_cons.mp member with same | listed
                · rw [same]
                  exact env.short record leaf.2 bytes
                · exact short other listed
              · have filled : (!leaf.2.isEmpty) = true := by
                  simpa using env.some_byte record leaf.2 bytes
                have decoded := env.record.decode_encode record leaf.2 bytes
                unfold decodeRecords at back ⊢
                rw [List.filter_cons, if_pos filled, List.mapM_cons, decoded, back]
                rfl

private theorem decoded_records_narrow (env : SubscriptionRegionEnv)
    (leaves : List (SubscriptionsKey × List UInt8)) (records : List PersistedSub)
    (ok : decodeRecords env leaves = .ok records) : ∀ record ∈ records, record.id < 2 ^ 64 := by
  unfold decodeRecords at ok
  generalize (leaves.filter fun leaf => !leaf.2.isEmpty) = filled at ok
  induction filled generalizing records with
  | nil =>
      cases ok
      simp
  | cons leaf filled ih =>
      rw [List.mapM_cons] at ok
      cases decoded : env.record.decode leaf.2 with
      | error message =>
          rw [decoded] at ok
          cases ok
      | ok first =>
          rw [decoded] at ok
          cases later : filled.mapM fun leaf =>
              (env.record.decode leaf.2).mapError WatchError.cborDecode with
          | error err =>
              rw [later] at ok
              cases ok
          | ok rest =>
              rw [later] at ok
              cases ok
              intro record member
              rcases List.mem_cons.mp member with same | listed
              · rw [same]
                exact env.narrow leaf.2 first decoded
              · exact ih rest later record listed

namespace SubscriptionEngine

private theorem add_record_ok (roaring : Roaring) (s after : SubscriptionEngine)
    (record : PersistedSub)
    (ok : addRecord roaring s record = .ok after) :
    ∃ cachedResult, roaring.deserialise record.cachedResult = .ok cachedResult ∧
      after =
        { s with
          tagToSubs :=
            (extractTags record.query).foldl (fun index tag => pushTagLink index record.id tag)
              s.tagToSubs
          subscriptions := s.subscriptions.insert record.id (record.toSubscription cachedResult)
          pendingEvents := s.pendingEvents.insert record.id [] } := by
  unfold addRecord at ok
  cases decoded : roaring.deserialise record.cachedResult with
  | error message =>
      rw [decoded] at ok
      cases ok
  | ok cachedResult =>
      rw [decoded] at ok
      cases ok
      exact ⟨cachedResult, rfl, rfl⟩

/-- What loading a list of records adds to an engine. -/
structure Loaded (roaring : Roaring) (records : List PersistedSub) (s after : SubscriptionEngine) :
    Prop where
  links : after.tagToSubs = records.foldl (fun index record =>
    (extractTags record.query).foldl (fun index tag => pushTagLink index record.id tag) index)
      s.tagToSubs
  nextId : after.nextId = s.nextId
  other : ∀ id, id ∉ records.map PersistedSub.id →
    after.subscriptions.lookup id = s.subscriptions.lookup id
  restored : (records.map PersistedSub.id).Nodup → ∀ record ∈ records, ∃ cachedResult,
    roaring.deserialise record.cachedResult = .ok cachedResult ∧
      after.subscriptions.lookup record.id = some (record.toSubscription cachedResult)

theorem add_records_ok (roaring : Roaring) (records : List PersistedSub)
    (s after : SubscriptionEngine) (ok : records.foldlM (addRecord roaring) s = .ok after) :
    Loaded roaring records s after := by
  induction records generalizing s with
  | nil =>
      cases ok
      exact ⟨rfl, rfl, fun _ _ => rfl, fun _ record member => absurd member List.not_mem_nil⟩
  | cons record records ih =>
      rw [List.foldlM_cons] at ok
      cases added : addRecord roaring s record with
      | error err =>
          rw [added] at ok
          cases ok
      | ok middle =>
          rw [added] at ok
          have rest := ih middle ok
          obtain ⟨cachedResult, decoded, rfl⟩ := add_record_ok roaring s middle record added
          constructor
          · exact rest.links
          · exact rest.nextId
          · intro id absent
            rw [List.map_cons, List.mem_cons, not_or] at absent
            rw [rest.other id absent.2, Finmap.lookup_insert_of_ne _ absent.1]
          · intro distinct loaded member
            rw [List.map_cons, List.nodup_cons] at distinct
            rcases List.mem_cons.mp member with same | later
            · subst same
              refine ⟨cachedResult, decoded, ?_⟩
              rw [rest.other _ distinct.1, Finmap.lookup_insert]
            · exact rest.restored distinct.2 loaded later

theorem from_records_ok (roaring : Roaring) (records : List PersistedSub)
    (after : SubscriptionEngine) (ok : fromRecords roaring records = .ok after) :
    Loaded roaring records
      { SubscriptionEngine.new with nextId := (records.map PersistedSub.id).foldl max 0 } after :=
  add_records_ok roaring records _ after ok

private theorem add_records_defined (roaring : Roaring) (records : List PersistedSub)
    (s : SubscriptionEngine)
    (decodes : ∀ record ∈ records, ∃ set, roaring.deserialise record.cachedResult = .ok set) :
    ∃ after, records.foldlM (addRecord roaring) s = .ok after := by
  induction records generalizing s with
  | nil => exact ⟨s, rfl⟩
  | cons record records ih =>
      obtain ⟨cachedResult, decoded⟩ := decodes record List.mem_cons_self
      rw [List.foldlM_cons, addRecord, decoded]
      exact ih _ fun other member => decodes other (List.mem_cons_of_mem record member)

/-- Every subscription is stored under its own identifier, which fits 64 bits. -/
structure Keyed (s : SubscriptionEngine) : Prop where
  own : ∀ id sub, s.subscriptions.lookup id = some sub → sub.id = id
  narrow : ∀ id sub, s.subscriptions.lookup id = some sub → id < 2 ^ 64

theorem snapshot_records_eq (roaring : Roaring) (s : SubscriptionEngine) (keyed : s.Keyed) :
    s.snapshotRecords roaring = ((toSorted s.subscriptions).map fun entry =>
        PersistedSub.ofSubscription roaring entry.2) ∧
      (s.snapshotRecords roaring).map PersistedSub.id =
        (toSorted s.subscriptions).map Prod.fst := by
  have ids : ((toSorted s.subscriptions).map fun entry =>
        PersistedSub.ofSubscription roaring entry.2).map PersistedSub.id =
      (toSorted s.subscriptions).map Prod.fst := by
    rw [List.map_map]
    apply List.map_congr_left
    intro entry member
    exact keyed.own entry.1 entry.2 ((mem_to_sorted s.subscriptions entry.1 entry.2).mp member)
  have sorted : ((toSorted s.subscriptions).map fun entry =>
      PersistedSub.ofSubscription roaring entry.2).Pairwise fun a b => a.id ≤ b.id := by
    have increasing := increasing_to_sorted s.subscriptions
    rw [← ids, List.pairwise_map] at increasing
    exact increasing.imp fun less => Nat.le_of_lt less
  have same : s.snapshotRecords roaring = ((toSorted s.subscriptions).map fun entry =>
      PersistedSub.ofSubscription roaring entry.2) := sorted.insertionSort_eq
  exact ⟨same, by rw [same, ids]⟩

theorem snapshot_ids_increasing (roaring : Roaring) (s : SubscriptionEngine) (keyed : s.Keyed) :
    ((s.snapshotRecords roaring).map PersistedSub.id).Pairwise (· < ·) := by
  rw [(snapshot_records_eq roaring s keyed).2]
  exact increasing_to_sorted s.subscriptions

private theorem snapshot_ids_narrow (roaring : Roaring) (s : SubscriptionEngine) (keyed : s.Keyed) :
    ∀ record ∈ s.snapshotRecords roaring, record.id < 2 ^ 64 := by
  intro record member
  rw [(snapshot_records_eq roaring s keyed).1] at member
  obtain ⟨entry, listed, same⟩ := List.mem_map.mp member
  have found := (mem_to_sorted s.subscriptions entry.1 entry.2).mp listed
  have named : entry.2.id = record.id := by rw [← same]; rfl
  rw [← named, keyed.own entry.1 entry.2 found]
  exact keyed.narrow entry.1 entry.2 found

/-- After a flush that succeeds the region holds the records of the
subscriptions, and nothing else has changed. -/
theorem flushed_records (env : SubscriptionRegionEnv) (s : SubscriptionEngine) (keyed : s.Keyed)
    (offset : Nat) (d after : Device)
    (ok : s.flushToRegion env offset d = (.ok (), after)) :
    ChangesWithin offset regionSize d after ∧
      ∀ e, AgreesOn offset regionSize after e →
        storedRecords env e offset = .ok (s.snapshotRecords env.roaring) := by
  obtain ⟨leaves, middle, lifted, written⟩ := DeviceM.bind_ok _ _ _ _ _ ok
  obtain ⟨encoded, same⟩ := DeviceM.lift_ok _ _ _ _ lifted
  subst same
  obtain ⟨keys, short, back⟩ := decode_encoded_records env _ leaves encoded
  have increasing : (leaves.map Prod.fst).Pairwise (· < ·) := by
    have ids := snapshot_ids_increasing env.roaring s keyed
    rw [List.pairwise_map] at ids
    rw [keys, List.pairwise_map]
    apply ids.imp_of_mem
    intro left right leftMember rightMember less
    have narrow := snapshot_ids_narrow env.roaring s keyed
    exact Prod.Lex.lt_iff.mpr (Or.inl ((UInt64.ofNat_lt_iff_lt (narrow left leftMember)
      (narrow right rightMember)).mpr less))
  have sorted : leaves.insertionSort (fun a b => a.1 ≤ b.1) = leaves := by
    rw [List.pairwise_map] at increasing
    exact List.Pairwise.insertionSort_eq (increasing.imp fun less => le_of_lt less)
  rw [sorted] at written
  have table := packed_table_read_back env.crc _ SubscriptionsKey.packable_lawful _ _ _ _ _ leaves
    offset _ _ (DeviceM.map_error_ok _ _ _ _ _ written) increasing (fun _ _ => rfl)
    (fun leaf member => Nat.lt_trans (short leaf member) (by decide)) (fun fixed => by cases fixed)
  refine ⟨table.1, ?_⟩
  intro e agrees
  have read : loadTable env.crc env.codec .subscriptions e offset = .ok leaves := table.2 e agrees
  rw [storedRecords, read]
  exact back

theorem stored_records_narrow (env : SubscriptionRegionEnv) (d : Device) (offset : Nat)
    (records : List PersistedSub) (ok : storedRecords env d offset = .ok records) :
    ∀ record ∈ records, record.id < 2 ^ 64 := by
  unfold storedRecords at ok
  cases loaded : loadTable env.crc env.codec .subscriptions d offset with
  | error err =>
      rw [loaded] at ok
      cases ok
  | ok leaves =>
      rw [loaded] at ok
      exact decoded_records_narrow env leaves records ok

/-- What was flushed is loaded with the same subscriptions. -/
theorem flushed_subscriptions (env : SubscriptionRegionEnv) (s : SubscriptionEngine)
    (keyed : s.Keyed) (offset : Nat) (d after : Device)
    (ok : s.flushToRegion env offset d = (.ok (), after)) (e : Device)
    (agrees : AgreesOn offset regionSize after e) :
    ∃ loaded, loadFromRegion env e offset = .ok loaded ∧
      loaded.subscriptions = s.subscriptions := by
  have stored := (flushed_records env s keyed offset d after ok).2 e agrees
  have listed := (snapshot_records_eq env.roaring s keyed).1
  obtain ⟨loaded, built⟩ := add_records_defined env.roaring (s.snapshotRecords env.roaring)
    { SubscriptionEngine.new with
      nextId := ((s.snapshotRecords env.roaring).map PersistedSub.id).foldl max 0 } (by
    intro record member
    rw [listed] at member
    obtain ⟨entry, _, same⟩ := List.mem_map.mp member
    rw [← same]
    exact ⟨entry.2.cachedResult, env.roaring.back entry.2.cachedResult⟩)
  refine ⟨loaded, ?_, ?_⟩
  · rw [loadFromRegion, stored]
    exact built
  · have added := add_records_ok env.roaring _ _ loaded built
    have increasing := snapshot_ids_increasing env.roaring s keyed
    have distinct : ((s.snapshotRecords env.roaring).map PersistedSub.id).Nodup :=
      increasing.imp fun less => ne_of_lt less
    apply Finmap.ext_lookup
    intro id
    cases found : s.subscriptions.lookup id with
    | none =>
        have absent : id ∉ (s.snapshotRecords env.roaring).map PersistedSub.id := by
          rw [(snapshot_records_eq env.roaring s keyed).2]
          intro present
          obtain ⟨entry, member, same⟩ := List.mem_map.mp present
          have located := (mem_to_sorted s.subscriptions entry.1 entry.2).mp member
          rw [same, found] at located
          cases located
        rw [added.other id absent]
        rfl
    | some sub =>
        have member : PersistedSub.ofSubscription env.roaring sub ∈
            s.snapshotRecords env.roaring := by
          rw [listed]
          exact List.mem_map.mpr ⟨(id, sub), (mem_to_sorted _ _ _).mpr found, rfl⟩
        obtain ⟨cachedResult, decoded, located⟩ := added.restored distinct _ member
        have same : cachedResult = sub.cachedResult := by
          have back := env.roaring.back sub.cachedResult
          have decoded : env.roaring.deserialise (env.roaring.serialise sub.cachedResult) =
            .ok cachedResult := decoded
          rw [back] at decoded
          exact (Except.ok.inj decoded).symm
        subst same
        rw [← keyed.own id sub found]
        exact located

end SubscriptionEngine

end Mimisbrunnr.Watch
