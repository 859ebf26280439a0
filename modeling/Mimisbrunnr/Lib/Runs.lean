import Mathlib.Data.List.Induction

/-!
# Runs of a step function

The states of a run are those after its first actions. An invariant that every
step keeps holds in all of them; a property that a step keeps just when a
condition on the state and the action is met holds in all of them just when every
step meets the condition.
-/

namespace Mimisbrunnr.Lib.Runs

set_option autoImplicit false

variable {State Action : Type*} (step : State → Action → State)

def run (start : State) (actions : List Action) : State := actions.foldl step start

@[simp] theorem run_nil (start : State) : run step start [] = start := rfl

@[simp] theorem run_append (start : State) (actions : List Action) (action : Action) :
    run step start (actions ++ [action]) = step (run step start actions) action := by
  unfold run
  rw [List.foldl_append]
  rfl

theorem run_invariant (invariant : State → Prop) (start : State) (initial : invariant start)
    (preserved : ∀ state action, invariant state → invariant (step state action))
    (actions : List Action) : invariant (run step start actions) := by
  induction actions using List.reverseRecOn with
  | nil => exact initial
  | append_singleton actions action ih =>
      rw [run_append]
      exact preserved _ action ih

def Along (condition : State → Action → Prop) (start : State) (actions : List Action) : Prop :=
  ∀ before action, before ++ [action] <+: actions → condition (run step start before) action

@[simp] theorem along_nil (condition : State → Action → Prop) (start : State) :
    Along step condition start [] := by
  intro before action reached
  have short := reached.length_le
  simp at short

theorem along_cons_iff (condition : State → Action → Prop) (start : State) (action : Action)
    (actions : List Action) :
    Along step condition start (action :: actions) ↔
      condition start action ∧ Along step condition (step start action) actions := by
  constructor
  · intro along
    constructor
    · exact along [] action ⟨actions, rfl⟩
    · intro before later reached
      exact along (action :: before) later (List.cons_prefix_cons.mpr ⟨rfl, reached⟩)
  · intro both before later reached
    cases before with
    | nil =>
        have same := (List.cons_prefix_cons.mp reached).1
        rw [same]
        exact both.1
    | cons first before =>
        have parts := List.cons_prefix_cons.mp reached
        rw [parts.1]
        exact both.2 before later parts.2

def Throughout (property : State → Prop) (start : State) (actions : List Action) : Prop :=
  ∀ before, before <+: actions → property (run step start before)

theorem throughout_nil_iff (property : State → Prop) (start : State) :
    Throughout step property start [] ↔ property start := by
  constructor
  · intro throughout
    exact throughout [] List.nil_prefix
  · intro holds before reached
    rw [List.prefix_nil.mp reached]
    exact holds

theorem throughout_cons_iff (property : State → Prop) (start : State) (action : Action)
    (actions : List Action) :
    Throughout step property start (action :: actions) ↔
      property start ∧ Throughout step property (step start action) actions := by
  constructor
  · intro throughout
    constructor
    · exact throughout [] List.nil_prefix
    · intro before reached
      exact throughout (action :: before) (List.cons_prefix_cons.mpr ⟨rfl, reached⟩)
  · intro both before reached
    cases before with
    | nil => exact both.1
    | cons first before =>
        have parts := List.cons_prefix_cons.mp reached
        rw [parts.1]
        exact both.2 before parts.2

instance decidableThroughout (property : State → Prop) [DecidablePred property] :
    (start : State) → (actions : List Action) →
      Decidable (Throughout step property start actions)
  | start, [] => decidable_of_iff _ (throughout_nil_iff step property start).symm
  | start, action :: actions =>
      have := decidableThroughout property (step start action) actions
      decidable_of_iff _ (throughout_cons_iff step property start action actions).symm

theorem throughout_iff_along (invariant allowed property : State → Prop)
    (condition : State → Action → Prop) (start : State) (initial : invariant start)
    (preserved : ∀ state action, invariant state → invariant (step state action))
    (exact_ : ∀ state action, invariant state → allowed state → allowed (step state action) →
      property state → (property (step state action) ↔ condition state action))
    (actions : List Action) (within : Throughout step allowed start actions) :
    Throughout step property start actions ↔
      property start ∧ Along step condition start actions := by
  have one (before : List Action) (action : Action) (reached : before ++ [action] <+: actions)
      (holds : property (run step start before)) :
      property (run step start (before ++ [action])) ↔
        condition (run step start before) action := by
    have earlier : before <+: actions := (List.prefix_append before [action]).trans reached
    have after := within _ reached
    rw [run_append] at after ⊢
    exact exact_ _ action (run_invariant step invariant start initial preserved before)
      (within before earlier) after holds
  constructor
  · intro throughout
    constructor
    · exact throughout [] List.nil_prefix
    · intro before action reached
      have earlier : before <+: actions := (List.prefix_append before [action]).trans reached
      exact (one before action reached (throughout before earlier)).mp (throughout _ reached)
  · intro both before
    induction before using List.reverseRecOn with
    | nil =>
        intro _
        exact both.1
    | append_singleton before action ih =>
        intro reached
        have earlier : before <+: actions := (List.prefix_append before [action]).trans reached
        exact (one before action reached (ih earlier)).mpr (both.2 before action reached)

end Mimisbrunnr.Lib.Runs
