import Mimisbrunnr.Engine.Deletion
import Mimisbrunnr.Engine.LiveQueries
import Mimisbrunnr.Engine.Locality
import Mimisbrunnr.Engine.RecordCounters
import Mimisbrunnr.Query.Negation

/-!
# Negation over the live objects

The universe of a negation is what the tag index lists. An object is active from
its creation on and listed only once it has a tag, so negation speaks of the live
objects just in the states in which all of them are tagged, as long as nothing is
asserted of the deleted ones.
-/

namespace Mimisbrunnr

set_option autoImplicit false

open Mimisbrunnr.Index
open Mimisbrunnr.Lib
open Mimisbrunnr.Lib.FiniteMap
open Mimisbrunnr.Ontology
open Mimisbrunnr.Types

namespace Indices

/-- The entries of the bitmaps are 32-bit numbers and the keys of the range index those of
values. -/
structure Framed (hash : ValueHash) (ix : Indices) : Prop where
  tags : ∀ t, ∀ x ∈ ix.tag.membersOf t, x < 2 ^ 32
  kv : ∀ k w, ∀ x ∈ ix.kv.lookup hash k w, x < 2 ^ 32
  range : ∀ k w, ∀ x ∈ ix.range.lookup k w, x < 2 ^ 32
  valued : Query.Valued ix.range

private theorem framed_new (hash : ValueHash) : Indices.new.Framed hash where
  tags := by
    intro t x member
    simp [Indices.new] at member
  kv := by
    intro k w x member
    simp [Indices.new] at member
  range := by
    intro k w x member
    simp [Indices.new] at member
  valued := by
    intro tag key x member
    simp [Indices.new, RangeIndex.new] at member

theorem low32_small (oid : ObjectId) : oid.low32 < 2 ^ 32 := Nat.mod_lt _ (by decide)

theorem framed_local (hash : ValueHash) (oid : ObjectId) (operation : Indices → Indices)
    (isLocal : LocalAt hash oid operation) (ix : Indices) (framed : ix.Framed hash)
    (valued : Query.Valued (operation ix).range) : (operation ix).Framed hash where
  tags := by
    intro t x member
    by_cases own : x = oid.low32
    · rw [own]
      exact low32_small oid
    · exact framed.tags t x ((isLocal.tags_frame ix x own t).mp member)
  kv := by
    intro k w x member
    by_cases own : x = oid.low32
    · rw [own]
      exact low32_small oid
    · exact framed.kv k w x ((isLocal.kv_frame ix x own k w).mp member)
  range := by
    intro k w x member
    by_cases own : x = oid.low32
    · rw [own]
      exact low32_small oid
    · exact framed.range k w x ((isLocal.range_frame ix x own k w).mp member)
  valued := valued

private theorem valued_insert (index : RangeIndex) (tag : TagId) (value : Value) (oidLocal : Nat)
    (valued : Query.Valued index) : Query.Valued (index.insert tag value oidLocal) := by
  intro other key x member
  cases (Bitmaps.mem_insert index.map _ _ oidLocal x).mp member with
  | inl new => exact ⟨value, congrArg Prod.snd new.1⟩
  | inr old => exact valued other key x old

theorem valued_remove (index : RangeIndex) (tag : TagId) (value : Value) (oidLocal : Nat)
    (valued : Query.Valued index) : Query.Valued (index.remove tag value oidLocal) := by
  intro other key x member
  exact valued other key x ((Bitmaps.mem_remove index.map _ _ oidLocal x).mp member).2

private theorem valued_remove_attr (hash : ValueHash) (ix : Indices) (oid : ObjectId) (key : TagId)
    (valueHash : UInt64) (valued : Query.Valued ix.range) :
    Query.Valued (ix.removeAttr hash oid key valueHash).range := by
  unfold removeAttr
  split
  · exact valued
  · exact valued_remove _ _ _ _ valued

private theorem valued_delete (hash : ValueHash) (ix : Indices) (oid : ObjectId)
    (valued : Query.Valued ix.range) : Query.Valued (ix.deleteObject hash oid).range := by
  have stripped : ∀ (entries : List Entry) (before : Indices), Query.Valued before.range →
      Query.Valued (entries.foldl (stripAttr hash oid) before).range := by
    intro entries
    induction entries with
    | nil =>
        intro before kept
        exact kept
    | cons entry rest ih =>
        intro before kept
        apply ih
        unfold stripAttr
        split
        · exact valued_remove _ _ _ _ kept
        · exact kept
  exact stripped _ _ valued

end Indices

namespace Core

private theorem framed_step (s : Setting) (c : Core) (mutation : Mutation)
    (framed : c.indices.Framed s.hash) : (c.step s mutation).indices.Framed s.hash := by
  have valued := framed.valued
  cases mutation with
  | createObject => exact framed
  | writeBlob oid plaintext => exact framed
  | deleteObject oid =>
      simp only [step]
      split
      · exact Indices.framed_local s.hash oid _ (Indices.local_delete s.hash oid) c.indices framed
          (Indices.valued_delete s.hash c.indices oid valued)
      · exact framed
  | addTag oid tag =>
      simp only [step]
      split
      · apply Indices.framed_local s.hash oid _ (Indices.local_add_tag s.hash oid s.ontology tag)
          c.indices framed
        rw [Indices.range_add_tag]
        exact valued
      · exact framed
  | removeTag oid tag =>
      simp only [step]
      split
      · apply Indices.framed_local s.hash oid _
          (Indices.local_remove_tag s.hash oid s.ontology tag) c.indices framed
        rw [Indices.range_remove_tag]
        exact valued
      · exact framed
  | setAttr oid key value =>
      simp only [step]
      split
      · exact Indices.framed_local s.hash oid _ (Indices.local_set_attr s.hash oid key value)
          c.indices framed (Indices.valued_insert _ _ _ _ valued)
      · exact framed
  | removeAttr oid key valueHash =>
      simp only [step]
      split
      · exact Indices.framed_local s.hash oid _
          (Indices.local_remove_attr s.hash oid key valueHash) c.indices framed
          (Indices.valued_remove_attr s.hash c.indices oid key valueHash valued)
      · exact framed
  | addRelation oid predicate target =>
      simp only [step]
      split
      · exact Indices.framed_local s.hash oid _
          (Indices.local_add_relation s.hash oid predicate target) c.indices framed valued
      · exact framed
  | removeRelation oid predicate target =>
      simp only [step]
      split
      · exact Indices.framed_local s.hash oid _
          (Indices.local_remove_relation s.hash oid predicate target) c.indices framed valued
      · exact framed

def Stated (c : Core) : Prop :=
  ∀ raw state, c.states raw = some state →
    state = ObjectState.active.toU8 ∨ state = ObjectState.tombstoned.toU8

private theorem stated_step (s : Setting) (c : Core) (mutation : Mutation) (stated : c.Stated) :
    (c.step s mutation).Stated := by
  have set (oid : ObjectId) (state : ObjectState)
      (either : state.toU8 = ObjectState.active.toU8 ∨ state.toU8 = ObjectState.tombstoned.toU8)
      (raw : UInt64) (byte : UInt8) (stored : c.setState oid state raw = some byte) :
      byte = ObjectState.active.toU8 ∨ byte = ObjectState.tombstoned.toU8 := by
    unfold setState at stored
    rw [Function.update_apply] at stored
    split at stored
    · cases stored
      exact either
    · exact stated raw byte stored
  cases mutation with
  | createObject => exact set (c.minted s) .active (Or.inl rfl)
  | writeBlob oid plaintext => exact stated
  | deleteObject oid =>
      simp only [step]
      split
      · exact set oid .tombstoned (Or.inr rfl)
      · exact stated
  | addTag oid tag =>
      simp only [step]
      split <;> exact stated
  | removeTag oid tag =>
      simp only [step]
      split <;> exact stated
  | setAttr oid key value =>
      simp only [step]
      split <;> exact stated
  | removeAttr oid key valueHash =>
      simp only [step]
      split <;> exact stated
  | addRelation oid predicate target =>
      simp only [step]
      split <;> exact stated
  | removeRelation oid predicate target =>
      simp only [step]
      split <;> exact stated

end Core

namespace Engine

def liveEntries (e : Engine) : Set Nat := {entry | ∃ oid, e.Live oid ∧ oid.toU64.toNat = entry}

theorem live_iff (e : Engine) (oid : ObjectId) :
    e.Live oid ↔ e.core.states oid.toU64 = some ObjectState.active.toU8 := by
  have stored : e.core.states oid.toU64 =
      (e.objectTable.lookup oid.toU64).map ObjectRecord.state := rfl
  rw [stored, Option.map_eq_some_iff]
  rfl

/-- What a run with small numbers that spares the deleted objects keeps. -/
structure Kept (env : Env) (e : Engine) : Prop where
  buried : e.core.Buried (e.setting env)
  stated : e.core.Stated
  recorded : e.Recorded
  framed : e.indices.Framed env.hash
  node : e.nodeId = 0

theorem of_node_number (oid : ObjectId) (ofNode : OfNode 0 oid) : oid.toU64.toNat = oid.low32 := by
  obtain ⟨n, small, same⟩ := ofNode
  rw [same, ObjectId.low32_from_parts 0 n small, ObjectId.toU64, ObjectId.raw_from_parts]
  have zero : (0 : UInt16).toNat = 0 := rfl
  omega

theorem entry_of_node (x : Nat) (small : x < 2 ^ 32) :
    ∃ oid, OfNode 0 oid ∧ oid.low32 = x :=
  ⟨ObjectId.fromParts 0 x, ⟨x, small, rfl⟩, ObjectId.low32_from_parts 0 x small⟩

section

variable {env : Env} {e : Engine} (kept : e.Kept env)

include kept

theorem node_setting (oid : ObjectId) (ofNode : OfNode 0 oid) :
    OfNode (e.setting env).nodeId oid := by
  have node : (e.setting env).nodeId = 0 := kept.node
  rw [node]
  exact ofNode

theorem known_of_node (oid : ObjectId) (known : e.core.known oid = true) : OfNode 0 oid := by
  have ofNode := kept.buried.sound.minted.ofNode _ _ oid known
  have node : (e.setting env).nodeId = 0 := kept.node
  rw [node] at ofNode
  exact ofNode

theorem asserted_live (oid : ObjectId) (entry : Indices.Entry)
    (member : entry ∈ e.indices.entriesOf oid) : e.Live oid ∧ OfNode 0 oid := by
  have known : e.core.known oid = true := by
    cases present : e.core.known oid with
    | true => rfl
    | false =>
        rw [kept.recorded oid ((known_core e oid).symm.trans present)] at member
        cases member
  refine ⟨?_, known_of_node kept oid known⟩
  rw [live_iff]
  obtain ⟨state, stored⟩ := Option.isSome_iff_exists.mp known
  cases kept.stated oid.toU64 state stored with
  | inl active => rw [stored, active]
  | inr tombstoned =>
      have silent := kept.buried.silent oid (stored.trans (congrArg some tombstoned))
      have nothing : e.indices.entriesOf oid = [] := silent
      rw [nothing] at member
      cases member

private theorem asserted_number (oid : ObjectId) (entry : Indices.Entry)
    (member : entry ∈ e.indices.entriesOf oid) : oid.low32 ∈ e.liveEntries := by
  obtain ⟨live, ofNode⟩ := asserted_live kept oid entry member
  exact ⟨oid, live, of_node_number oid ofNode⟩

private theorem member_iff_has_tag (oid : ObjectId) (ofNode : OfNode 0 oid) (tag : TagId) :
    oid.low32 ∈ e.indices.tag.membersOf tag ↔ e.indices.forward.hasTag oid tag = true :=
  kept.buried.sound.tags.agree oid (node_setting kept oid ofNode) tag

private theorem scanned_number (oid : ObjectId) (assertion : Assertion) (entry : Nat)
    (carried : (e.executor env).Carries oid assertion)
    (fits : Query.oidLow32 oid.toU64 = some entry) : entry ∈ e.liveEntries := by
  obtain ⟨origin, member⟩ := carried
  obtain ⟨live, ofNode⟩ := asserted_live kept oid (assertion, origin) member
  have number := of_node_number oid ofNode
  unfold Query.oidLow32 at fits
  dsimp only at fits
  split at fits
  · next small =>
      refine ⟨oid, live, ?_⟩
      have below := Indices.low32_small oid
      have same := Option.some.inj fits
      omega
  · cases fits

theorem sees_iff_tagged :
    (e.executor env).Sees e.liveEntries ↔
      ∀ oid, e.Live oid → ∃ tag, e.indices.forward.hasTag oid tag = true := by
  have liveOfNode (oid : ObjectId) (live : e.Live oid) : OfNode 0 oid := by
    apply known_of_node kept oid
    rw [Core.known, (live_iff e oid).mp live]
    rfl
  constructor
  · intro sees oid live
    have ofNode := liveOfNode oid live
    obtain ⟨tag, member⟩ := sees.tagged oid.low32 ⟨oid, live, of_node_number oid ofNode⟩
    exact ⟨tag, (member_iff_has_tag kept oid ofNode tag).mp member⟩
  · intro tagged
    exact
      { tagged := by
          intro entry alive
          obtain ⟨oid, live, number⟩ := alive
          have ofNode := liveOfNode oid live
          obtain ⟨tag, has⟩ := tagged oid live
          rw [← number, of_node_number oid ofNode]
          exact ⟨tag, (member_iff_has_tag kept oid ofNode tag).mpr has⟩
        tags := by
          intro tag entry member
          obtain ⟨oid, ofNode, number⟩ := entry_of_node entry (kept.framed.tags tag entry member)
          rw [← number] at member ⊢
          have has := (member_iff_has_tag kept oid ofNode tag).mp member
          obtain ⟨listed, inside, -⟩ := (Indices.has_tag_entries e.indices oid tag).mp has
          exact asserted_number kept oid listed inside
        kv := by
          intro key value entry member
          obtain ⟨oid, ofNode, number⟩ := entry_of_node entry
            (kept.framed.kv key value entry member)
          rw [← number] at member ⊢
          obtain ⟨held, ⟨origin, inside⟩, -⟩ := kept.buried.kv oid
            (node_setting kept oid ofNode) key value member
          exact asserted_number kept oid _ inside
        range := by
          intro key value entry member
          obtain ⟨oid, ofNode, number⟩ := entry_of_node entry
            (kept.framed.range key value entry member)
          rw [← number] at member ⊢
          obtain ⟨held, ⟨origin, inside⟩, -⟩ := kept.buried.range oid
            (node_setting kept oid ofNode) key value member
          exact asserted_number kept oid _ inside
        attrs := fun oid key value entry carried fits =>
          scanned_number kept oid _ entry carried fits
        relations := fun oid predicate target entry carried fits =>
          scanned_number kept oid _ entry carried fits }

end

theorem run_framed (env : Env) (nodeId : UInt16) (ontology : OntologyState)
    (run : List TimedMutation) : ((fresh nodeId ontology).after env run).indices.Framed env.hash := by
  have always := core_invariant env (fresh nodeId ontology) (fun _ _ => True)
    (fun c => c.indices.Framed env.hash)
    (fun e mutation _ framed _ => Core.framed_step ((fresh nodeId ontology).setting env) e.core
      mutation framed)
    (Indices.framed_new env.hash) run (along_of_mem env (fun _ => True) run (fun _ _ => trivial) _)
  exact always.2

private theorem run_kept (env : Env) (ontology : OntologyState) (run : List TimedMutation)
    (small : Along env (fun e mutation => e.core.MintsBelow mutation) (fresh 0 ontology) run)
    (spares : Along env (fun e mutation => e.core.SparesDeleted (e.setting env) mutation)
      (fresh 0 ontology) run) : ((fresh 0 ontology).after env run).Kept env := by
  have start : (fresh 0 ontology).core.Buried ((fresh 0 ontology).setting env) :=
    { sound := sound_fresh env 0 ontology
      kv := (kvView env.hash).covered_new 0
      range := (rangeView env.hash).covered_new 0
      silent := fun _ _ => ForwardIndex.assertions_of_new _ }
  have buried := core_invariant env (fresh 0 ontology) _ (fun c => c.Buried _)
    (fun e mutation same buried met => Core.buried_step _ e.core mutation buried met.1
      (same ▸ met.2)) start run (along_and env _ _ run _ small spares)
  have stated := core_invariant env (fresh 0 ontology) _ Core.Stated
    (fun e mutation _ stated _ => Core.stated_step _ e.core mutation stated)
    (fun raw state stored => by cases stored) run small
  have recorded := after_induction env _ Recorded
    (fun e mutation reading recorded _ => recorded_apply env e mutation reading recorded) run
    (fresh 0 ontology) (fun oid _ => ForwardIndex.assertions_of_new oid) small
  exact
    { buried := buried.1.symm ▸ buried.2
      stated := stated.2
      recorded := recorded
      framed := run_framed env 0 ontology run
      node := congrArg Setting.nodeId buried.1 }

/-- In every state of a run the results of a query and of its negation partition the active
objects just when these are tagged and the indices name no others; if the run has small numbers and
asserts nothing of deleted objects, just when they are tagged. -/
theorem negation_partitions_live_iff (env : Env) (ontology : OntologyState)
    (run : List TimedMutation) :
    let e := (fresh 0 ontology).after env run
    ((e.executor env).Partitions e.liveEntries ↔ (e.executor env).Sees e.liveEntries) ∧
      (Along env (fun e mutation => e.core.MintsBelow mutation) (fresh 0 ontology) run →
        Along env (fun e mutation => e.core.SparesDeleted (e.setting env) mutation)
          (fresh 0 ontology) run →
        ((e.executor env).Partitions e.liveEntries ↔
          ∀ oid, e.Live oid → ∃ tag, e.indices.forward.hasTag oid tag = true)) := by
  intro e
  have exact_ := (e.executor env).partitions_iff e.liveEntries (run_framed env 0 ontology run).valued
  refine ⟨exact_, ?_⟩
  intro small spares
  rw [exact_]
  exact sees_iff_tagged (run_kept env ontology run small spares)

def photoOntology : OntologyState := ((Engine.new 0).registerTag "photo").2.ontology

def taggedWithAttribute : List TimedMutation :=
  [(.createObject, none), (.addTag (ObjectId.fromParts 0 1) 1, none),
    (.setAttr (ObjectId.fromParts 0 1) 7 (.int 1), none)]

theorem tagged_object_partitioned :
    let e := (fresh 0 photoOntology).after Env.sample taggedWithAttribute
    (e.executor Env.sample).Partitions e.liveEntries := by
  intro e
  apply ((negation_partitions_live_iff Env.sample photoOntology taggedWithAttribute).2
    (by decide +kernel) (by decide +kernel)).mpr
  intro oid live
  obtain ⟨record, stored, -⟩ := live
  have listed := mem_of_lookup _ _ _ stored
  have only : e.objectTable.keys = {1} := by decide +kernel
  have first : oid = ObjectId.fromParts 0 1 := by
    rw [only, Finset.mem_singleton] at listed
    exact ForwardIndex.to_u64_injective oid (ObjectId.fromParts 0 1) listed
  exact ⟨1, by rw [first]; decide +kernel⟩

/-- A new object is neither in a result nor in its negation. -/
theorem untagged_object_unseen :
    let e := (fresh 0 OntologyState.new).after Env.sample [(.createObject, none)]
    (e.executor Env.sample).evaluate (.hasTag 3) = .ok ∅ ∧
      (e.executor Env.sample).evaluate (.not (.hasTag 3)) = .ok ∅ ∧
      e.stateOf 1 = some ObjectState.active.toU8 ∧
      ¬ (e.executor Env.sample).Partitions e.liveEntries := by
  intro e
  have result : (e.executor Env.sample).evaluate (.hasTag 3) = .ok ∅ := by decide +kernel
  have negated : (e.executor Env.sample).evaluate (.not (.hasTag 3)) = .ok ∅ := by decide +kernel
  have active : e.stateOf 1 = some ObjectState.active.toU8 := by decide +kernel
  refine ⟨result, negated, active, ?_⟩
  intro partitions
  obtain ⟨rest, same, -, union, -⟩ := partitions (.hasTag 3) ∅ result
  rw [negated] at same
  cases same
  have stored : e.core.states (ObjectId.fromU64 1).toU64 = some ObjectState.active.toU8 := by
    decide +kernel
  have live : e.Live (ObjectId.fromU64 1) := (live_iff e _).mpr stored
  have listed : (1 : Nat) ∈ e.liveEntries := ⟨_, live, UInt64.toNat_one⟩
  cases (union 1).mpr listed

end Engine

end Mimisbrunnr
