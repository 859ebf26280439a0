import Mathlib.Data.Finset.Insert
import Mathlib.Data.Finset.Erase
import Mathlib.Data.List.Chain

/-!
# Logs of membership changes

A change says that a key entered a finite set or left it. A log is effective
when each of its changes altered the set it met, and then the changes of one
key alternate.
-/

namespace Mimisbrunnr.Lib.ChangeLog

set_option autoImplicit false

universe u

variable {α : Type u} [DecidableEq α]

structure Change (α : Type u) where
  key : α
  enters : Bool
deriving DecidableEq

def Change.apply (set : Finset α) (change : Change α) : Finset α :=
  if change.enters then insert change.key set else set.erase change.key

def replay (set : Finset α) (log : List (Change α)) : Finset α := log.foldl Change.apply set

def Effective (set : Finset α) : List (Change α) → Prop
  | [] => True
  | change :: rest => change.enters ≠ decide (change.key ∈ set) ∧ Effective (change.apply set) rest

def history (key : α) (log : List (Change α)) : List Bool :=
  (log.filter fun change => change.key = key).map Change.enters

theorem replay_append (set : Finset α) (log more : List (Change α)) :
    replay set (log ++ more) = replay (replay set log) more := by
  rw [replay, replay, replay, List.foldl_append]

theorem effective_append (set : Finset α) (log more : List (Change α)) :
    Effective set (log ++ more) ↔ Effective set log ∧ Effective (replay set log) more := by
  induction log generalizing set with
  | nil => simp [Effective, replay]
  | cons change log ih =>
      rw [List.cons_append, Effective, Effective, ih, and_assoc]
      rfl

theorem mem_apply_same (set : Finset α) (change : Change α) :
    decide (change.key ∈ change.apply set) = change.enters := by
  cases enters : change.enters <;> simp [Change.apply, enters]

theorem mem_apply_other (set : Finset α) (change : Change α) (key : α)
    (other : change.key ≠ key) : key ∈ change.apply set ↔ key ∈ set := by
  have different : key ≠ change.key := fun same => other same.symm
  cases enters : change.enters <;> simp [Change.apply, enters, different]

theorem effective_alternates (set : Finset α) (log : List (Change α)) (key : α)
    (effective : Effective set log) :
    (decide (key ∈ set) :: history key log).IsChain (· ≠ ·) := by
  induction log generalizing set with
  | nil => simp [history]
  | cons change log ih =>
      obtain ⟨alters, rest⟩ := effective
      have later := ih (change.apply set) rest
      by_cases same : change.key = key
      · subst same
        rw [mem_apply_same] at later
        have shape : history change.key (change :: log) =
            change.enters :: history change.key log := by
          simp [history]
        rw [shape, List.isChain_cons_cons]
        exact ⟨alters.symm, later⟩
      · have shape : history key (change :: log) = history key log := by
          simp [history, same]
        have kept : decide (key ∈ change.apply set) = decide (key ∈ set) :=
          decide_eq_decide.mpr (mem_apply_other set change key same)
        rw [kept] at later
        rw [shape]
        exact later

end Mimisbrunnr.Lib.ChangeLog
