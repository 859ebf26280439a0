import Mimisbrunnr.Engine.Deletion
import Mimisbrunnr.Engine.HeldTags
import Mimisbrunnr.Engine.Locality
import Mimisbrunnr.Engine.ReplayEquivalence

/-!
# Replay on a state that already contains the operations

After a crash between the save of the indices and the trim of the log, the
operations of a run are replayed on the state the run has produced. Appended
attributes and relations are appended again. The replay is followed step by step
beside the run that logged it: it gives back what was there if no step appends
an assertion once more, none finds one to take away, and none adds a tag whose
origin it decides against the run and its end.
-/

namespace Mimisbrunnr

set_option autoImplicit false

open Mimisbrunnr.Index
open Mimisbrunnr.Lib.Support
open Mimisbrunnr.Lib.Vec
open Mimisbrunnr.Ontology
open Mimisbrunnr.Types
open Mimisbrunnr.Wal

def OpKind.target : OpKind → ObjectId
  | .createObject oid => oid
  | .deleteObject oid => oid
  | .addTag oid _ => oid
  | .removeTag oid _ => oid
  | .setAttr oid _ _ => oid
  | .removeAttr oid _ _ => oid
  | .addRelation oid _ _ => oid
  | .removeRelation oid _ _ => oid
  | .writeBlob oid _ _ => oid

namespace Indices

/-- The index part of the replay of an operation on a known object. -/
def replayEffect (s : Setting) (ix : Indices) : OpKind → Indices
  | .createObject _ => ix
  | .deleteObject oid => ix.replayDeleteObject oid
  | .addTag oid tag => ix.addTag s.ontology oid tag
  | .removeTag oid tag => ix.removeTag s.ontology oid tag
  | .setAttr oid key value => ix.setAttr s.hash oid key value
  | .removeAttr oid key valueHash => ix.removeAttr s.hash oid key valueHash
  | .addRelation oid predicate target => ix.addRelation oid predicate target
  | .removeRelation oid predicate target => (ix.removeRelation oid predicate target).1
  | .writeBlob _ _ _ => ix

/-- The index part of the mutation that logged the operation. -/
def liveEffect (s : Setting) (ix : Indices) (op : OpKind) : Indices :=
  match op with
  | .deleteObject oid => ix.deleteObject s.hash oid
  | other => ix.replayEffect s other

theorem local_replay_effect (s : Setting) (op : OpKind) :
    LocalAt s.hash op.target fun ix => ix.replayEffect s op := by
  cases op with
  | createObject oid => exact local_id s.hash oid
  | deleteObject oid => exact local_replay_delete s.hash oid
  | addTag oid tag => exact local_add_tag s.hash oid s.ontology tag
  | removeTag oid tag => exact local_remove_tag s.hash oid s.ontology tag
  | setAttr oid key value => exact local_set_attr s.hash oid key value
  | removeAttr oid key valueHash => exact local_remove_attr s.hash oid key valueHash
  | addRelation oid predicate target => exact local_add_relation s.hash oid predicate target
  | removeRelation oid predicate target =>
      exact local_remove_relation s.hash oid predicate target
  | writeBlob oid contentHash size => exact local_id s.hash oid

private theorem local_live_effect (s : Setting) (op : OpKind) :
    LocalAt s.hash op.target fun ix => ix.liveEffect s op := by
  cases op with
  | deleteObject oid => exact local_delete s.hash oid
  | createObject oid => exact local_replay_effect s (.createObject oid)
  | addTag oid tag => exact local_replay_effect s (.addTag oid tag)
  | removeTag oid tag => exact local_replay_effect s (.removeTag oid tag)
  | setAttr oid key value => exact local_replay_effect s (.setAttr oid key value)
  | removeAttr oid key valueHash => exact local_replay_effect s (.removeAttr oid key valueHash)
  | addRelation oid predicate target =>
      exact local_replay_effect s (.addRelation oid predicate target)
  | removeRelation oid predicate target =>
      exact local_replay_effect s (.removeRelation oid predicate target)
  | writeBlob oid contentHash size => exact local_replay_effect s (.writeBlob oid contentHash size)

/-- What a step of the replay must meet, beside the run that logged it. Nothing lets an attribute
or a relation be appended once more. -/
def Harmless (s : Setting) (final live replayed : Indices) : OpKind → Prop
  | .setAttr _ _ _ => False
  | .addRelation _ _ _ => False
  | .removeAttr oid key valueHash => replayed.selectedValue s.hash oid key valueHash = none
  | .removeRelation oid predicate target =>
      ∀ entry ∈ replayed.entriesOf oid, entry.1 ≠ .relation predicate target
  | .addTag oid tag =>
      ¬ (live.forward.hasTag oid tag = true ∧ live.wasDirect oid tag = false ∧
          replayed.forward.hasTag oid tag = false ∧ final.wasDirect oid tag = false) ∧
        ¬ (live.forward.hasTag oid tag = false ∧ replayed.forward.hasTag oid tag = true ∧
          replayed.wasDirect oid tag = false ∧ final.wasDirect oid tag = true)
  | .createObject _ => True
  | .deleteObject _ => True
  | .removeTag _ _ => True
  | .writeBlob _ _ _ => True

/-- Every step, each in the state it meets in the run and in the one it meets in the replay. -/
def HarmlessAlong (s : Setting) (final : Indices) : List OpKind → Indices → Indices → Prop
  | [], _, _ => True
  | op :: rest, live, replayed =>
      Harmless s final live replayed op ∧
        HarmlessAlong s final rest (live.liveEffect s op) (replayed.replayEffect s op)

instance (s : Setting) (final live replayed : Indices) :
    (op : OpKind) → Decidable (Harmless s final live replayed op)
  | .setAttr _ _ _ | .addRelation _ _ _ => instDecidableFalse
  | .removeAttr oid key valueHash =>
      inferInstanceAs (Decidable (replayed.selectedValue s.hash oid key valueHash = none))
  | .removeRelation oid predicate target =>
      inferInstanceAs (Decidable (∀ entry ∈ replayed.entriesOf oid,
        entry.1 ≠ .relation predicate target))
  | .addTag oid tag =>
      inferInstanceAs (Decidable (¬ (live.forward.hasTag oid tag = true ∧
          live.wasDirect oid tag = false ∧ replayed.forward.hasTag oid tag = false ∧
          final.wasDirect oid tag = false) ∧
        ¬ (live.forward.hasTag oid tag = false ∧ replayed.forward.hasTag oid tag = true ∧
          replayed.wasDirect oid tag = false ∧ final.wasDirect oid tag = true)))
  | .createObject _ | .deleteObject _ | .removeTag _ _ | .writeBlob _ _ _ => instDecidableTrue

instance decidableHarmlessAlong (s : Setting) (final : Indices) :
    (ops : List OpKind) → (live replayed : Indices) →
      Decidable (HarmlessAlong s final ops live replayed)
  | [], _, _ => isTrue trivial
  | op :: rest, live, replayed =>
      have := decidableHarmlessAlong s final rest (live.liveEffect s op)
        (replayed.replayEffect s op)
      inferInstanceAs (Decidable (Harmless s final live replayed op ∧
        HarmlessAlong s final rest (live.liveEffect s op) (replayed.replayEffect s op)))

theorem attributes_harmless (s : Setting) (final : Indices) (ops : List OpKind) :
    ∀ live replayed, HarmlessAlong s final ops live replayed →
      (ops.foldl (replayEffect s) replayed).kv = replayed.kv ∧
        (ops.foldl (replayEffect s) replayed).range = replayed.range := by
  induction ops with
  | nil =>
      intro live replayed _
      exact ⟨rfl, rfl⟩
  | cons op rest ih =>
      intro live replayed harmless
      have later := ih _ _ harmless.2
      have step : (replayed.replayEffect s op).kv = replayed.kv ∧
          (replayed.replayEffect s op).range = replayed.range := by
        cases op with
        | createObject oid => exact ⟨rfl, rfl⟩
        | deleteObject oid => exact ⟨rfl, rfl⟩
        | writeBlob oid contentHash size => exact ⟨rfl, rfl⟩
        | removeRelation oid predicate target => exact ⟨rfl, rfl⟩
        | setAttr oid key value => exact harmless.1.elim
        | addRelation oid predicate target => exact harmless.1.elim
        | addTag oid tag =>
            exact ⟨kv_add_tag oid tag s.ontology replayed, range_add_tag oid tag s.ontology replayed⟩
        | removeTag oid tag =>
            exact ⟨kv_remove_tag oid s.ontology replayed tag,
              range_remove_tag oid s.ontology replayed tag⟩
        | removeAttr oid key valueHash =>
            have none : replayed.selectedValue s.hash oid key valueHash = none := harmless.1
            simp only [replayEffect, removeAttr, none, and_self]
      rw [List.foldl_cons]
      exact ⟨later.1.trans step.1, later.2.trans step.2⟩

section Object

variable (s : Setting) (oid : ObjectId)

def Apart (ops : List OpKind) : Prop :=
  ∀ op ∈ ops, op.target.low32 = oid.low32 → op.target = oid

theorem apart_step (op : OpKind) (rest : List OpKind) (isApart : Apart oid (op :: rest))
    (other : op.target ≠ oid) : oid.low32 ≠ op.target.low32 := by
  intro same
  exact other (isApart op List.mem_cons_self same.symm)

theorem apart_tail (op : OpKind) (rest : List OpKind) (isApart : Apart oid (op :: rest)) :
    Apart oid rest := fun later member => isApart later (List.mem_cons_of_mem op member)

/-- What an operation is for the tags the object holds. -/
def tagOp : OpKind → Option (Op TagId)
  | .addTag target tag => if target = oid then some (.add tag) else none
  | .removeTag target tag => if target = oid then some (.remove tag) else none
  | .deleteObject target => if target = oid then some .clear else none
  | _ => none

def holdingAfter (ix : Indices) (op : OpKind) : Holding TagId :=
  (tagOp oid op).elim (ix.holding oid) (step (Implies s.ontology) (ix.holding oid))

theorem replay_holding (valid : s.ontology.dag.Valid) (ix : Indices) (op : OpKind)
    (apart : op.target ≠ oid → oid.low32 ≠ op.target.low32)
    (settled : ix.TagsSettled s.ontology oid) :
    (ix.replayEffect s op).TagsSettled s.ontology oid ∧
      (ix.replayEffect s op).holding oid = holdingAfter s oid ix op := by
  by_cases other : op.target ≠ oid
  · have frame := (local_replay_effect s op).frame s.hash op.target oid _ ix (apart other)
    have none : tagOp oid op = none := by
      cases op <;> simp_all [tagOp, OpKind.target]
    rw [holdingAfter, none]
    apply settled_same s.ontology ix oid _ _ _ frame.tags settled
    · rw [TagsDistinct, frame.entries]
      exact settled.distinct
    · intro entry t _
      rw [frame.entries]
  have same : op.target = oid := not_not.mp other
  subst same
  cases op with
  | createObject target => exact ⟨settled, rfl⟩
  | writeBlob target contentHash size => exact ⟨settled, rfl⟩
  | deleteObject target =>
      simp only [holdingAfter, tagOp, OpKind.target, if_true, Option.elim_some]
      have cleared := settled_cleared s.ontology (ix.replayDeleteObject target) target
        (by rw [entries_replay_delete, if_pos rfl])
        (by
          intro t
          rw [members_replay_delete]
          simp)
      exact ⟨cleared.1, cleared.2⟩
  | addTag target tag =>
      simp only [holdingAfter, tagOp, OpKind.target, if_true, Option.elim_some]
      exact ⟨settled_add_tag s.ontology ix target valid tag settled,
        holding_add_tag s.ontology ix target tag⟩
  | removeTag target tag =>
      simp only [holdingAfter, tagOp, OpKind.target, if_true, Option.elim_some]
      exact ⟨settled_remove_tag s.ontology ix target valid tag settled,
        holding_remove_tag s.ontology ix target tag settled⟩
  | setAttr target key value =>
      apply settled_same s.ontology ix target _ _ _ _ settled
      · exact tags_distinct_set_attr s.hash ix target target key value settled.distinct
      · intro entry t tagged
        rw [replayEffect, mem_set_attr]
        apply or_iff_left
        intro added
        rw [added.2] at tagged
        cases tagged
      · intro t
        exact Iff.rfl
  | addRelation target predicate object =>
      apply settled_same s.ontology ix target _ _ _ _ settled
      · exact tags_distinct_add_relation ix target target predicate object settled.distinct
      · intro entry t tagged
        rw [replayEffect, mem_add_relation]
        apply or_iff_left
        intro added
        rw [added.2] at tagged
        cases tagged
      · intro t
        exact Iff.rfl
  | removeAttr target key valueHash =>
      apply settled_same s.ontology ix target _ _ _ _ settled
      · exact tags_distinct_remove_attr s.hash ix target key valueHash target settled.distinct
      · intro entry t tagged
        exact mem_remove_attr_tag s.hash ix target key valueHash target entry t tagged
      · intro t
        simp only [replayEffect, removeAttr]
        split
        · exact Iff.rfl
        · exact Iff.rfl
  | removeRelation target predicate object =>
      apply settled_same s.ontology ix target _ _ _ _ settled
      · exact tags_distinct_remove_relation ix target predicate object target settled.distinct
      · intro entry t tagged
        apply mem_remove_relation_apart ix target predicate object target entry
        intro shape
        rw [entryTag, shape] at tagged
        cases tagged
      · intro t
        exact Iff.rfl

theorem live_holding (valid : s.ontology.dag.Valid) (ix : Indices) (op : OpKind)
    (apart : op.target ≠ oid → oid.low32 ≠ op.target.low32)
    (settled : ix.TagsSettled s.ontology oid) :
    (ix.liveEffect s op).TagsSettled s.ontology oid ∧
      (ix.liveEffect s op).holding oid = holdingAfter s oid ix op := by
  cases op with
  | deleteObject target =>
      by_cases other : target ≠ oid
      · have frame := (local_live_effect s (.deleteObject target)).frame s.hash target oid _ ix
          (apart other)
        rw [holdingAfter, tagOp, if_neg other]
        apply settled_same s.ontology ix oid _ _ _ frame.tags settled
        · rw [TagsDistinct, frame.entries]
          exact settled.distinct
        · intro entry t _
          rw [frame.entries]
      · cases not_not.mp other
        simp only [holdingAfter, tagOp, if_true, Option.elim_some]
        have cleared := settled_cleared s.ontology (ix.deleteObject s.hash oid) oid
          (by rw [entries_delete, if_pos rfl])
          (by
            intro t
            rw [members_delete]
            simp)
        exact ⟨cleared.1, cleared.2⟩
  | createObject target => exact replay_holding s oid valid ix (.createObject target) apart settled
  | addTag target tag => exact replay_holding s oid valid ix (.addTag target tag) apart settled
  | removeTag target tag => exact replay_holding s oid valid ix (.removeTag target tag) apart settled
  | setAttr target key value =>
      exact replay_holding s oid valid ix (.setAttr target key value) apart settled
  | removeAttr target key valueHash =>
      exact replay_holding s oid valid ix (.removeAttr target key valueHash) apart settled
  | addRelation target predicate object =>
      exact replay_holding s oid valid ix (.addRelation target predicate object) apart settled
  | removeRelation target predicate object =>
      exact replay_holding s oid valid ix (.removeRelation target predicate object) apart settled
  | writeBlob target contentHash size =>
      exact replay_holding s oid valid ix (.writeBlob target contentHash size) apart settled

/-- Along a list of operations, the library's operations say what the object holds. -/
theorem holding_foldl (effect : Indices → OpKind → Indices)
    (each : ∀ ix op, (op.target ≠ oid → oid.low32 ≠ op.target.low32) →
      ix.TagsSettled s.ontology oid → (effect ix op).TagsSettled s.ontology oid ∧
        (effect ix op).holding oid = holdingAfter s oid ix op) (ops : List OpKind) :
    ∀ ix, Apart oid ops → ix.TagsSettled s.ontology oid →
      (ops.foldl effect ix).TagsSettled s.ontology oid ∧
        (ops.foldl effect ix).holding oid =
          run (Implies s.ontology) (ix.holding oid) (ops.filterMap (tagOp oid)) := by
  induction ops with
  | nil =>
      intro ix _ settled
      exact ⟨settled, rfl⟩
  | cons op rest ih =>
      intro ix isApart settled
      have first := each ix op (apart_step oid op rest isApart) settled
      have later := ih (effect ix op) (apart_tail oid op rest isApart) first.1
      refine ⟨later.1, later.2.trans ?_⟩
      rw [first.2, holdingAfter]
      cases isTag : tagOp oid op with
      | none => rw [List.filterMap_cons_none isTag, Option.elim_none]
      | some tagged =>
          rw [List.filterMap_cons_some isTag, Option.elim_some]
          rfl

private theorem keeps_origins (valid : s.ontology.dag.Valid) (final : Indices) (ops : List OpKind) :
    ∀ live replayed, Apart oid ops → live.TagsSettled s.ontology oid →
      replayed.TagsSettled s.ontology oid → HarmlessAlong s final ops live replayed →
      KeepsOrigins (Implies s.ontology) (final.holding oid) (ops.filterMap (tagOp oid))
        (live.holding oid) (replayed.holding oid) := by
  induction ops with
  | nil =>
      intro live replayed _ _ _ _
      exact trivial
  | cons op rest ih =>
      intro live replayed isApart settledLive settledReplayed harmless
      have apart := apart_step oid op rest isApart
      have nextLive := live_holding s oid valid live op apart settledLive
      have nextReplayed := replay_holding s oid valid replayed op apart settledReplayed
      have later := ih _ _ (apart_tail oid op rest isApart) nextLive.1 nextReplayed.1 harmless.2
      rw [nextLive.2, nextReplayed.2, holdingAfter, holdingAfter] at later
      cases isTag : tagOp oid op with
      | none =>
          rw [List.filterMap_cons_none isTag]
          rw [isTag] at later
          exact later
      | some tagged =>
          rw [List.filterMap_cons_some isTag]
          rw [isTag] at later
          refine ⟨?_, later⟩
          cases tagged with
          | remove tag => exact trivial
          | clear => exact trivial
          | add tag =>
              have shape : op = .addTag oid tag := by
                cases op <;> simp_all [tagOp]
              cases shape
              have origins := harmless.1
              have direct (ix : Indices) :
                  tag ∈ (ix.holding oid).direct ↔ ix.wasDirect oid tag = true :=
                (was_direct_iff oid ix tag).symm
              have held (ix : Indices) :
                  tag ∈ (ix.holding oid).held ↔ ix.forward.hasTag oid tag = true := Iff.rfl
              simp only [KeepsOrigin, direct, held, Bool.not_eq_true]
              exact origins

theorem untagged_shrinks (final live replayed : Indices) (op : OpKind)
    (harmless : Harmless s final live replayed op) (bare : live.untagged oid = []) :
    (live.liveEffect s op).untagged oid = [] := by
  have fewer (after : Indices) (kept : ∀ entry ∈ after.entriesOf oid, entry ∈ live.entriesOf oid) :
      after.untagged oid = [] := by
    rw [untagged, List.filter_eq_nil_iff] at bare ⊢
    exact fun entry member => bare entry (kept entry member)
  cases op with
  | createObject target => exact bare
  | writeBlob target contentHash size => exact bare
  | setAttr target key value => exact harmless.elim
  | addRelation target predicate object => exact harmless.elim
  | addTag target tag => exact (untagged_add_tag s.ontology live target oid tag).trans bare
  | removeTag target tag =>
      exact fewer _ fun entry => mem_of_mem_remove_tag target s.ontology live tag oid entry
  | removeAttr target key valueHash =>
      exact fewer _ fun entry => mem_of_mem_remove_attr s.hash live target key valueHash oid entry
  | removeRelation target predicate object =>
      exact fewer _ fun entry => mem_of_mem_remove_relation live target predicate object oid entry
  | deleteObject target =>
      rw [liveEffect, untagged, entries_delete]
      split
      · rfl
      · exact bare

theorem untagged_deleted (final : Indices) (ops : List OpKind) :
    ∀ live replayed, HarmlessAlong s final ops live replayed →
      live.untagged oid = [] ∨ .deleteObject oid ∈ ops →
      (ops.foldl (liveEffect s) live).untagged oid = [] := by
  induction ops with
  | nil =>
      intro live replayed _ either
      exact either.resolve_right List.not_mem_nil
  | cons op rest ih =>
      intro live replayed harmless either
      apply ih _ _ harmless.2
      cases either with
      | inl bare => exact Or.inl (untagged_shrinks s oid final live replayed op harmless.1 bare)
      | inr deleted =>
          cases List.mem_cons.mp deleted with
          | inr later => exact Or.inr later
          | inl now =>
              rw [← now, liveEffect, untagged, entries_delete, if_pos rfl]
              exact Or.inl rfl

/-- The other assertions stay as they are in the replay. -/
theorem untagged_replayed (final : Indices) (ops : List OpKind)
    (deleted : .deleteObject oid ∈ ops → final.untagged oid = []) :
    ∀ live replayed, HarmlessAlong s final ops live replayed →
      (replayed.untagged oid).Perm (final.untagged oid) →
      ((ops.foldl (replayEffect s) replayed).untagged oid).Perm (final.untagged oid) := by
  induction ops with
  | nil =>
      intro live replayed _ same
      exact same
  | cons op rest ih =>
      intro live replayed harmless same
      apply ih (fun later => deleted (List.mem_cons_of_mem op later)) _ _ harmless.2
      have first := harmless.1
      cases op with
      | createObject target => exact same
      | writeBlob target contentHash size => exact same
      | setAttr target key value => exact first.elim
      | addRelation target predicate object => exact first.elim
      | addTag target tag =>
          rw [replayEffect, untagged_add_tag]
          exact same
      | removeTag target tag =>
          exact (untagged_remove_tag s.ontology replayed target oid tag).trans same
      | removeAttr target key valueHash =>
          have none : replayed.selectedValue s.hash target key valueHash = none := first
          simp only [replayEffect, removeAttr, none]
          exact same
      | removeRelation target predicate object =>
          have noEntry : (replayed.entriesOf target).find?
              (ForwardIndex.matchesEntry (.relation predicate object)) = none := by
            rw [List.find?_eq_none]
            intro entry member accepted
            exact first entry member
              ((Assertion.eq_relation_iff entry.1 predicate object).mp accepted)
          have entries : (replayed.removeRelation target predicate object).1.entriesOf oid =
              replayed.entriesOf oid := by
            rw [entries_remove_relation, remove_first_none _ _ noEntry]
            split
            · next here => rw [here]
            · rfl
          rw [replayEffect, untagged, entries]
          exact same
      | deleteObject target =>
          rw [replayEffect, untagged, entries_replay_delete]
          split
          · next here =>
              rw [deleted (here ▸ List.mem_cons_self)]
              exact List.Perm.refl _
          · exact same

/-- The replay gives the object back as the run has left it. -/
theorem replay_harmless (valid : s.ontology.dag.Valid) (ops : List OpKind)
    (isApart : Apart oid ops) (before after : Indices)
    (ends : after = ops.foldl (liveEffect s) before)
    (settled : before.TagsSettled s.ontology oid)
    (harmless : HarmlessAlong s after ops before after) :
    ((ops.foldl (replayEffect s) after).entriesOf oid).Perm (after.entriesOf oid) ∧
      ∀ t, oid.low32 ∈ (ops.foldl (replayEffect s) after).tag.membersOf t ↔
        oid.low32 ∈ after.tag.membersOf t := by
  have live := holding_foldl s oid (liveEffect s) (live_holding s oid valid) ops before isApart
    settled
  rw [← ends] at live
  have replayed := holding_foldl s oid (replayEffect s) (replay_holding s oid valid) ops after
    isApart live.1
  have origins := keeps_origins s oid valid after ops before after isApart settled live.1 harmless
  rw [live.2] at origins
  have same : (ops.foldl (replayEffect s) after).holding oid = after.holding oid := by
    rw [replayed.2, live.2]
    exact replay_unchanged (implies_closed s.ontology valid) _ _
      (settled_holding s.ontology before oid settled) origins
  constructor
  · apply perm_of_holding _ oid after replayed.1.distinct live.1.distinct same
    apply untagged_replayed s oid after ops _ before after harmless (List.Perm.refl _)
    intro deleted
    rw [ends]
    exact untagged_deleted s oid after ops before after harmless (Or.inr deleted)
  · intro t
    rw [replayed.1.agree, live.1.agree]
    exact iff_of_eq (congrArg (t ∈ ·.held) same)

end Object

end Indices

namespace Core

def MintsNew (s : Setting) (c : Core) : Mutation → Prop
  | .createObject => c.known (c.minted s) = false
  | _ => True

instance (s : Setting) (c : Core) : (mutation : Mutation) → Decidable (c.MintsNew s mutation)
  | .createObject => inferInstanceAs (Decidable (c.known (c.minted s) = false))
  | .deleteObject _ | .addTag _ _ | .removeTag _ _ | .setAttr _ _ _ | .removeAttr _ _ _
  | .addRelation _ _ _ | .removeRelation _ _ _ | .writeBlob _ _ => instDecidableTrue

theorem mints_new_apart (s : Setting) (c : Core) (mutation : Mutation) (oid : ObjectId)
    (new : c.MintsNew s mutation) (isCreate : mutation = .createObject)
    (known : c.known oid = true) : oid ≠ c.minted s := by
  intro same
  subst isCreate
  have unknown : c.known (c.minted s) = false := new
  rw [← same, known] at unknown
  cases unknown

private theorem step_effect (s : Setting) (c : Core) (mutation : Mutation) (op : OpKind)
    (logs : c.Logs s op mutation) :
    (c.step s mutation).indices = c.indices.liveEffect s op ∧
      (c.step s mutation).known op.target = true := by
  cases mutation with
  | createObject =>
      subst logs
      exact ⟨rfl, (known_step s c .createObject _).mpr (Or.inr ⟨rfl, rfl⟩)⟩
  | writeBlob oid plaintext =>
      cases logs.2 with
      | intro contentHash rest =>
          cases rest with
          | intro size isOp =>
              subst isOp
              exact ⟨rfl, logs.1⟩
  | deleteObject oid =>
      have isOp := logs.2
      subst isOp
      have known := (known_step s c (.deleteObject oid) oid).mpr (Or.inl logs.1)
      apply And.intro _ known
      simp only [step, logs.1, if_true]
      rfl
  | addTag oid tag =>
      have isOp := logs.2
      subst isOp
      have known := (known_step s c (.addTag oid tag) oid).mpr (Or.inl logs.1)
      apply And.intro _ known
      simp only [step, logs.1, if_true]
      rfl
  | removeTag oid tag =>
      have isOp := logs.2
      subst isOp
      have known := (known_step s c (.removeTag oid tag) oid).mpr (Or.inl logs.1)
      apply And.intro _ known
      simp only [step, logs.1, if_true]
      rfl
  | setAttr oid key value =>
      have isOp := logs.2
      subst isOp
      have known := (known_step s c (.setAttr oid key value) oid).mpr (Or.inl logs.1)
      apply And.intro _ known
      simp only [step, logs.1, if_true]
      rfl
  | removeAttr oid key valueHash =>
      have isOp := logs.2
      subst isOp
      have known := (known_step s c (.removeAttr oid key valueHash) oid).mpr (Or.inl logs.1)
      apply And.intro _ known
      simp only [step, logs.1, if_true]
      rfl
  | addRelation oid predicate target =>
      have isOp := logs.2
      subst isOp
      have known := (known_step s c (.addRelation oid predicate target) oid).mpr (Or.inl logs.1)
      apply And.intro _ known
      simp only [step, logs.1, if_true]
      rfl
  | removeRelation oid predicate target =>
      have isOp := logs.2
      subst isOp
      have known := (known_step s c (.removeRelation oid predicate target) oid).mpr (Or.inl logs.1)
      apply And.intro _ known
      simp only [step, logs.1, if_true]
      rfl

theorem replay_effect (s : Setting) (c : Core) (op : OpKind) (known : c.known op.target = true)
    (deleted : ∀ oid, op = .deleteObject oid → c.Tombstoned oid) :
    (c.replay s op).indices = c.indices.replayEffect s op ∧ (c.replay s op).states = c.states := by
  cases op with
  | createObject oid => exact ⟨rfl, ensured_known c oid known⟩
  | deleteObject oid =>
      have isKnown : c.known oid = true := known
      have tombstoned : c.states oid.toU64 = some ObjectState.tombstoned.toU8 := deleted oid rfl
      apply And.intro rfl
      simp only [replay, isKnown, if_true]
      unfold setState
      rw [← tombstoned, Function.update_eq_self]
  | addTag oid tag => exact ⟨rfl, ensured_known c oid known⟩
  | removeTag oid tag =>
      have isKnown : c.known oid = true := known
      have unfolded : c.replay s (.removeTag oid tag) =
          { c with indices := c.indices.removeTag s.ontology oid tag } := by
        simp only [replay, isKnown, if_true]
      rw [unfolded]
      exact ⟨rfl, rfl⟩
  | setAttr oid key value => exact ⟨rfl, ensured_known c oid known⟩
  | removeAttr oid key valueHash => exact ⟨rfl, rfl⟩
  | addRelation oid predicate target => exact ⟨rfl, ensured_known c oid known⟩
  | removeRelation oid predicate target => exact ⟨rfl, rfl⟩
  | writeBlob oid contentHash size => exact ⟨rfl, ensured_known c oid known⟩

private theorem replay_effects (s : Setting) (ops : List OpKind) (c : Core)
    (known : ∀ op ∈ ops, c.known op.target = true)
    (deleted : ∀ oid, .deleteObject oid ∈ ops → c.Tombstoned oid) :
    (ops.foldl (replay s) c).indices = ops.foldl (Indices.replayEffect s) c.indices ∧
      (ops.foldl (replay s) c).states = c.states := by
  induction ops generalizing c with
  | nil => exact ⟨rfl, rfl⟩
  | cons op rest ih =>
      have first := replay_effect s c op (known op List.mem_cons_self)
        (fun oid isDelete => deleted oid (isDelete ▸ List.mem_cons_self))
      have sameKnown (oid : ObjectId) : (c.replay s op).known oid = c.known oid := by
        unfold Core.known
        rw [first.2]
      have later := ih (c.replay s op)
        (fun next member => by
          rw [sameKnown]
          exact known next (List.mem_cons_of_mem op member))
        (fun oid member => by
          unfold Tombstoned
          rw [first.2]
          exact deleted oid (List.mem_cons_of_mem op member))
      rw [List.foldl_cons, List.foldl_cons]
      exact ⟨later.1.trans (by rw [first.1]), later.2.trans first.2⟩

end Core

namespace Engine

/-- A step keeps known objects known and, if new objects are new, deleted ones deleted. -/
theorem known_tombstoned_after (env : Env) (start : Engine) (run : List TimedMutation)
    (oid : ObjectId)
    (new : Along env (fun e mutation => e.core.MintsNew (e.setting env) mutation) start run) :
    (start.core.known oid = true → (start.after env run).core.known oid = true) ∧
      (start.core.Tombstoned oid → (start.after env run).core.Tombstoned oid) := by
  apply And.intro
  · intro known
    have kept := core_invariant env start _ (fun c => c.known oid = true)
      (fun e mutation _ holds _ => (Core.known_step _ e.core mutation oid).mpr (Or.inl holds))
      known run new
    exact kept.2
  · intro deleted
    have kept := core_invariant env start _ (fun c => c.Tombstoned oid)
      (fun e mutation same holds new => (Core.tombstoned_step _ e.core mutation oid
        (Core.mints_new_apart _ e.core mutation oid (same ▸ new))).mpr (Or.inl holds))
      deleted run new
    exact kept.2

/-- What a run does to the indices is what its log entries do. -/
theorem execute_effects (env : Env) (run : List TimedMutation) :
    ∀ start : Engine,
      Along env (fun e mutation => e.core.MintsNew (e.setting env) mutation) start run →
      (start.after env run).indices =
          (start.execute env run).1.foldl (Indices.liveEffect (start.setting env)) start.indices ∧
        (∀ op ∈ (start.execute env run).1, (start.after env run).core.known op.target = true) ∧
        ∀ oid, .deleteObject oid ∈ (start.execute env run).1 →
          (start.after env run).core.Tombstoned oid := by
  induction run with
  | nil =>
      intro start _
      exact ⟨rfl, fun op member => absurd member List.not_mem_nil,
        fun oid member => absurd member List.not_mem_nil⟩
  | cons step rest ih =>
      intro start along
      cases step with
      | mk mutation reading =>
          have later := ih (start.apply env mutation reading).2 along.2
          have sameSetting := setting_apply env start mutation reading
          rw [sameSetting] at later
          simp only [after_cons, execute, List.foldl_append]
          cases outcome : (start.apply env mutation reading).1 with
          | error err =>
              have unchanged := apply_error_core env start mutation reading err outcome
              have sameIndices : (start.apply env mutation reading).2.indices = start.indices :=
                congrArg Core.indices unchanged
              rw [sameIndices] at later
              exact later
          | ok op =>
              have logs := apply_logs env start mutation reading op outcome
              have effect := Core.step_effect _ start.core mutation op logs
              rw [← core_apply env start mutation reading] at effect
              have indices : (start.apply env mutation reading).2.indices =
                  start.indices.liveEffect (start.setting env) op := effect.1
              simp only [Except.toOption, Option.toList_some, List.foldl_cons, List.foldl_nil,
                List.singleton_append, List.mem_cons]
              apply And.intro
              · rw [← indices]
                exact later.1
              apply And.intro
              · intro next member
                cases member with
                | inl first =>
                    subst first
                    exact (known_tombstoned_after env _ rest next.target along.2).1 effect.2
                | inr rest_ => exact later.2.1 next rest_
              · intro oid member
                cases member with
                | inr rest_ => exact later.2.2 oid rest_
                | inl first =>
                    subst first
                    apply (known_tombstoned_after env _ rest oid along.2).2
                    rw [core_apply]
                    apply (Core.tombstoned_step _ start.core mutation oid
                      (Core.mints_new_apart _ start.core mutation oid along.1)).mpr
                    cases mutation with
                    | deleteObject target =>
                        cases logs.2
                        exact Or.inr ⟨rfl, logs.1⟩
                    | createObject => cases logs
                    | addTag target tag => cases logs.2
                    | removeTag target tag => cases logs.2
                    | setAttr target key value => cases logs.2
                    | removeAttr target key valueHash => cases logs.2
                    | addRelation target predicate object => cases logs.2
                    | removeRelation target predicate object => cases logs.2
                    | writeBlob target plaintext =>
                        cases logs.2 with
                        | intro contentHash more =>
                            cases more with
                            | intro size impossible => cases impossible

end Engine

namespace Indices

/-- What no operation of the list concerns, the list leaves as it is. -/
theorem replay_frame (s : Setting) (ops : List OpKind) (ix : Indices) :
    (∀ oid, (∀ op ∈ ops, op.target ≠ oid) →
      (ops.foldl (replayEffect s) ix).entriesOf oid = ix.entriesOf oid) ∧
    ∀ x, (∀ op ∈ ops, op.target.low32 ≠ x) → ∀ t,
      x ∈ (ops.foldl (replayEffect s) ix).tag.membersOf t ↔ x ∈ ix.tag.membersOf t := by
  induction ops generalizing ix with
  | nil => simp
  | cons op rest ih =>
      have isLocal := local_replay_effect s op
      have later := ih (ix.replayEffect s op)
      apply And.intro
      · intro oid untouched
        rw [List.foldl_cons, later.1 oid fun next member =>
          untouched next (List.mem_cons_of_mem op member)]
        exact isLocal.entries_frame ix oid fun same => untouched op List.mem_cons_self same.symm
      · intro x untouched t
        have apart : x ≠ op.target.low32 := fun same => untouched op List.mem_cons_self same.symm
        have rest_ := later.2 x (fun next member =>
          untouched next (List.mem_cons_of_mem op member)) t
        exact rest_.trans (isLocal.tags_frame ix x apart t)

end Indices

namespace Engine

/-- The log of a run, replayed on the engine the run has produced, leaves it as it is if every
step is harmless, for a start in which the tags of the objects of the run are settled. -/
theorem replay_is_idempotent (env : Env) (codec : WalCodec) (start : Engine)
    (run : List TimedMutation) (lsn : Nat) (records : List WalRecord)
    (logged : WalRecord.logOf codec lsn (start.execute env run).1 = .ok records)
    (ahead : (start.after env run).lastAppliedLsn < lsn)
    (valid : start.ontology.dag.Valid)
    (new : Along env (fun e mutation => e.core.MintsNew (e.setting env) mutation) start run)
    (apart : ∀ op ∈ (start.execute env run).1,
      Indices.Apart op.target (start.execute env run).1)
    (settled : ∀ op ∈ (start.execute env run).1,
      start.indices.TagsSettled start.ontology op.target)
    (harmless : Indices.HarmlessAlong (start.setting env) (start.after env run).indices
      (start.execute env run).1 start.indices (start.after env run).indices) :
    ∃ replayed, (start.after env run).replayLog env codec records = .ok replayed ∧
      (∀ oid, (replayed.indices.forward.assertionsOf oid).Perm
        ((start.after env run).indices.forward.assertionsOf oid)) ∧
      (∀ t, replayed.indices.tag.membersOf t = (start.after env run).indices.tag.membersOf t) ∧
      (∀ k w, replayed.indices.kv.lookup env.hash k w =
        (start.after env run).indices.kv.lookup env.hash k w) ∧
      (∀ k w, replayed.indices.range.lookup k w =
        (start.after env run).indices.range.lookup k w) ∧
      ∀ oid, replayed.IsLive oid ↔ (start.after env run).IsLive oid := by
  have effects := execute_effects env run start new
  have settingAfter : (start.after env run).setting env = start.setting env :=
    (core_invariant env start _ (fun _ => True) (fun _ _ _ _ _ => trivial) trivial run new).1
  cases replay_log_core env codec _ lsn records (start.after env run) logged ahead with
  | intro replayed facts =>
      have core := Core.replay_effects (start.setting env) (start.execute env run).1
        (start.after env run).core effects.2.1 effects.2.2
      rw [← settingAfter, ← facts.2] at core
      rw [settingAfter] at core
      have states : replayed.stateOf = (start.after env run).stateOf := core.2
      have indices : replayed.indices = (start.execute env run).1.foldl
          (Indices.replayEffect (start.setting env)) (start.after env run).indices := core.1
      have same (op : OpKind) (member : op ∈ (start.execute env run).1) :
          (replayed.indices.entriesOf op.target).Perm
              ((start.after env run).indices.entriesOf op.target) ∧
            ∀ t, op.target.low32 ∈ replayed.indices.tag.membersOf t ↔
              op.target.low32 ∈ (start.after env run).indices.tag.membersOf t := by
        rw [indices]
        exact Indices.replay_harmless (start.setting env) op.target valid _ (apart op member)
          start.indices _ effects.1 (settled op member) harmless
      have attributes := Indices.attributes_harmless (start.setting env)
        (start.after env run).indices (start.execute env run).1 start.indices _ harmless
      have frame := Indices.replay_frame (start.setting env) (start.execute env run).1
        (start.after env run).indices
      rw [← indices] at frame attributes
      refine ⟨replayed, facts.1, ?_, ?_, ?_, ?_, ?_⟩
      · intro oid
        by_cases touched : ∃ op ∈ (start.execute env run).1, op.target = oid
        · cases touched with
          | intro op both => exact both.2 ▸ (same op both.1).1
        · exact .of_eq (frame.1 oid fun op member isTarget => touched ⟨op, member, isTarget⟩)
      · intro t
        ext x
        by_cases touched : ∃ op ∈ (start.execute env run).1, op.target.low32 = x
        · cases touched with
          | intro op both => exact both.2 ▸ (same op both.1).2 t
        · exact frame.2 x (fun op member isTarget => touched ⟨op, member, isTarget⟩) t
      · intro k w
        rw [attributes.1]
      · intro k w
        rw [attributes.2]
      · intro oid
        unfold IsLive
        rw [states]

/-- The log records of a run from a saved engine. -/
def recordsSince (codec : WalCodec) (start : Engine) (run : List TimedMutation) : List WalRecord :=
  match WalRecord.logOf codec 1 (start.execute Env.sample run).1 with
  | .ok records => records
  | .error _ => []

/-- The CBOR payloads of a few operations on the second object of node 1. -/
def tagPayloads : List (WalOp × List UInt8) :=
  [(.createObject 0x0001000000000002 0 0,
      [0xa3, 0x63, 0x6f, 0x69, 0x64, 0x1b, 0x00, 0x01, 0x00, 0x00, 0x00, 0x00, 0x00, 0x02,
        0x6a, 0x67, 0x65, 0x6e, 0x65, 0x72, 0x61, 0x74, 0x69, 0x6f, 0x6e, 0x00, 0x6a, 0x63,
        0x72, 0x65, 0x61, 0x74, 0x65, 0x64, 0x5f, 0x6e, 0x73, 0x00]),
    (.addTag 0x0001000000000002 2 0,
      [0xa3, 0x63, 0x6f, 0x69, 0x64, 0x1b, 0x00, 0x01, 0x00, 0x00, 0x00, 0x00, 0x00, 0x02,
        0x63, 0x74, 0x61, 0x67, 0x02, 0x66, 0x6f, 0x72, 0x69, 0x67, 0x69, 0x6e, 0x00]),
    (.addTag 0x0001000000000002 3 0,
      [0xa3, 0x63, 0x6f, 0x69, 0x64, 0x1b, 0x00, 0x01, 0x00, 0x00, 0x00, 0x00, 0x00, 0x02,
        0x63, 0x74, 0x61, 0x67, 0x03, 0x66, 0x6f, 0x72, 0x69, 0x67, 0x69, 0x6e, 0x00]),
    (.removeTag 0x0001000000000002 2,
      [0xa2, 0x63, 0x6f, 0x69, 0x64, 0x1b, 0x00, 0x01, 0x00, 0x00, 0x00, 0x00, 0x00, 0x02,
        0x63, 0x74, 0x61, 0x67, 0x02])]

def tagCodec : WalCodec := WalCodec.ofTable tagPayloads (by decide +kernel)

private theorem photo_shelf_start :
    photoShelf.indices = Indices.new ∧ photoShelf.ontology.dag.Valid := by
  have installed (e : Engine) (bundle : OntologyModule) (valid : e.ontology.dag.Valid) :
      (e.installOntologyModule Env.sample bundle).2.indices = e.indices ∧
        (e.installOntologyModule Env.sample bundle).2.ontology.dag.Valid := by
    have frame := install_frame Env.sample e bundle
    refine ⟨frame.1, ?_⟩
    rw [frame.2]
    cases e.ontology.install_cases Env.sample.topo bundle
        (IdAllocator.startingAt e.nextFreeTagId) valid with
    | inl refused =>
        rw [refused.2]
        exact valid
    | inr accepted => exact accepted.2.1
  exact installed (Engine.new 1) _ ImplicationDag.new_valid

/-- `media` is added to a new object, then `photo`, and `media` is removed again. -/
def mediaComesAndGoes : List TimedMutation :=
  [(.createObject, none), (.addTag (ObjectId.fromParts 1 2) 2, none),
    (.addTag (ObjectId.fromParts 1 2) 3, none), (.removeTag (ObjectId.fromParts 1 2) 2, none)]

theorem replay_is_idempotent_for_tags :
    (recordsSince tagCodec photoShelf mediaComesAndGoes).length = 4 ∧
      ∃ replayed, (photoShelf.after Env.sample mediaComesAndGoes).replayLog Env.sample tagCodec
          (recordsSince tagCodec photoShelf mediaComesAndGoes) = .ok replayed ∧
        ∀ oid, (replayed.indices.forward.assertionsOf oid).Perm
          ((photoShelf.after Env.sample mediaComesAndGoes).indices.forward.assertionsOf oid) := by
  apply And.intro (by decide +kernel)
  have ops : (photoShelf.execute Env.sample mediaComesAndGoes).1 =
      [.createObject (ObjectId.fromParts 1 2), .addTag (ObjectId.fromParts 1 2) 2,
        .addTag (ObjectId.fromParts 1 2) 3, .removeTag (ObjectId.fromParts 1 2) 2] := by
    decide +kernel
  have logged : WalRecord.logOf tagCodec 1 (photoShelf.execute Env.sample mediaComesAndGoes).1 =
      .ok (recordsSince tagCodec photoShelf mediaComesAndGoes) := by rfl
  have ahead : (photoShelf.after Env.sample mediaComesAndGoes).lastAppliedLsn < 1 := by
    decide +kernel
  have target : ∀ op ∈ (photoShelf.execute Env.sample mediaComesAndGoes).1,
      op.target = ObjectId.fromParts 1 2 := by
    rw [ops]
    simp [OpKind.target]
  obtain ⟨replayed, facts⟩ := replay_is_idempotent Env.sample tagCodec photoShelf
    mediaComesAndGoes 1 _ logged ahead photo_shelf_start.2 (by decide +kernel)
    (fun op member other present _ => (target other present).trans (target op member).symm)
    (by
      intro op _
      rw [photo_shelf_start.1]
      exact (Indices.settled_cleared photoShelf.ontology Indices.new op.target
        (ForwardIndex.assertions_of_new op.target) (by simp [Indices.new])).1)
    (by decide +kernel)
  exact ⟨replayed, facts.1, facts.2.1⟩

/-- The engine after the log of a run was replayed on what the run has produced. -/
def replayedTwice (run : List TimedMutation) : Engine :=
  match ((fresh 1 OntologyState.new).after Env.sample run).replayLog Env.sample sampleCodec
      (recordsSince sampleCodec (fresh 1 OntologyState.new) run) with
  | .ok replayed => replayed
  | .error _ => fresh 1 OntologyState.new

/-- One attribute has become two. -/
theorem replay_duplicates_attribute :
    (recordsSince sampleCodec (fresh 1 OntologyState.new)
        [(.createObject, none), (.setAttr firstObject 7 (.int 1), none)]).length = 2 ∧
      ¬ ((replayedTwice [(.createObject, none),
            (.setAttr firstObject 7 (.int 1), none)]).indices.forward.assertionsOf
              firstObject).Perm
          (((fresh 1 OntologyState.new).after Env.sample
            [(.createObject, none),
              (.setAttr firstObject 7 (.int 1), none)]).indices.forward.assertionsOf
                firstObject) := by
  decide +kernel

end Engine

end Mimisbrunnr
