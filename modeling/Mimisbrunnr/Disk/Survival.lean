import Mimisbrunnr.Disk.CheckpointedRuns

/-!
# Objects behind commits and crashes

A commit drops values of the forward index, and a replayed deletion leaves them, so
what comes up behind a crash need not have the assertions it had. Its objects are
those of an engine in memory all the same, each in the same state, and new ids go on
from the same counter.
-/

namespace Mimisbrunnr

set_option autoImplicit false

open Mimisbrunnr.Lib
open Mimisbrunnr.Pool
open Mimisbrunnr.Storage
open Mimisbrunnr.Types

namespace Core

theorem SameStates.stepped {left right : Core} (same : SameStates left right) (s : Setting)
    (mutation : Mutation) : SameStates (left.step s mutation) (right.step s mutation) := by
  obtain ⟨states, counter⟩ := same
  have known (oid : ObjectId) : left.known oid = right.known oid := by
    rw [Core.known, Core.known, states]
  rcases step_states s left mutation with rfl | ⟨target, rfl⟩ | ⟨creates, deletes, kept, next⟩
  · constructor
    · simp only [Core.step, setState, minted, states, counter]
    · simp only [Core.step, counter]
  · simp only [Core.step, known]
    split
    · exact ⟨by simp only [setState, states], counter⟩
    · exact ⟨states, counter⟩
  · rcases step_states s right mutation with rfl | ⟨target, rfl⟩ | ⟨-, -, keptRight, nextRight⟩
    · exact absurd rfl creates
    · exact absurd rfl (deletes target)
    · exact ⟨kept.trans (states.trans keptRight.symm), next.trans (counter.trans nextRight.symm)⟩

private theorem SameStates.symm {left right : Core} (same : SameStates left right) :
    SameStates right left :=
  ⟨same.states.symm, same.counter.symm⟩

private theorem SameStates.trans {left middle right : Core} (same : SameStates left middle)
    (again : SameStates middle right) : SameStates left right :=
  ⟨same.states.trans again.states, same.counter.trans again.counter⟩

end Core

/-- The mutations of a run with commits, where one that a crash has interrupted may be missing. -/
inductive Performed : List DurableCall → List TimedMutation → Prop
  | nil : Performed [] []
  | done (mutation : Mutation) (readings : Readings) {calls : List DurableCall}
      {run : List TimedMutation} (later : Performed calls run) :
      Performed (.power (.mutate mutation readings) :: calls) ((mutation, readings.mutation) :: run)
  | kept (mutation : Mutation) (readings : Readings) (left : Device)
      {calls : List DurableCall} {run : List TimedMutation} (later : Performed calls run) :
      Performed (.power (.crash mutation readings left) :: calls)
        ((mutation, readings.mutation) :: run)
  | lost (mutation : Mutation) (readings : Readings) (left : Device)
      {calls : List DurableCall} {run : List TimedMutation} (later : Performed calls run) :
      Performed (.power (.crash mutation readings left) :: calls) run
  | committed (reading : Option Int64) {calls : List DurableCall} {run : List TimedMutation}
      (later : Performed calls run) : Performed (.commit reading :: calls) run

namespace MountedEngine

/-- What a call may have made of the objects. -/
def ObjectsAfter (s : Setting) (before after : Core) : DurableCall → Prop
  | .power (.mutate mutation _) => Core.SameStates after (before.step s mutation)
  | .power (.crash mutation _ _) =>
      Core.SameStates after before ∨ Core.SameStates after (before.step s mutation)
  | .commit _ => Core.SameStates after before

section

variable {env : LifecycleEnv} {fuel : Nat} {config : PoolConfig} {m : MountedEngine} {x : Shadow}

theorem recovered_logging (s : Setting) (x : Shadow) (op : OpKind) :
    (x.logging op).recovered s = (x.recovered s).replay s op := by
  rw [Shadow.recovered, Shadow.logging, List.foldl_append]
  rfl

private theorem Shadowed.objects (shadowed : Shadowed env fuel config m x) {call : DurableCall}
    {later : Shadow} (step : Shadow.Step (Saved.new env config.nodeId).setting call x later) :
    ObjectsAfter (Saved.new env config.nodeId).setting x.memory later.memory call := by
  have recovers := shadowed.recovers.1
  obtain ⟨sameConfig, memory, lsn, kept⟩ := shadowed
  cases step with
  | refused _ mutation readings unchanged =>
      change Core.SameStates x.memory (x.memory.step _ mutation)
      rw [unchanged]
      exact ⟨rfl, rfl⟩
  | logged _ mutation readings op logs => exact ⟨rfl, rfl⟩
  | lost _ mutation readings left => exact Or.inl recovers.symm
  | kept _ mutation readings left op logs =>
      have small := kept.counter_small
      have counted := kept.memory.counted
      rw [memory] at counted small
      rw [sameConfig] at counted
      refine Or.inr ?_
      rw [recovered_logging]
      exact (recovers.step counted mutation op small logs).symm
  | committed _ reading => exact ⟨rfl, rfl⟩

end

end MountedEngine

end Mimisbrunnr
