import Mathlib.Data.List.Defs

/-!
# Runs of a step that may end them

A step that returns no state ends the run. A condition that the steps of a run
meet gives a property of them where it keeps an invariant that turns the one into
the other.
-/

namespace Mimisbrunnr.Lib.PartialRuns

set_option autoImplicit false

variable {State Action : Type*} (step : State → Action → Option State)

/-- The state behind the actions, if none of them ends the run. -/
def reach (start : State) : List Action → Option State
  | [] => some start
  | action :: actions => (step start action).bind fun next => reach next actions

/-- Each step that the run takes meets the condition in the state it is taken in. -/
def Along (condition : State → Action → Prop) : State → List Action → Prop
  | _, [] => True
  | start, action :: actions =>
      condition start action ∧
        ∀ next, step start action = some next → Along condition next actions

/-- Each state that the run reaches has the property. -/
def Throughout (property : State → Prop) : State → List Action → Prop
  | start, [] => property start
  | start, action :: actions =>
      property start ∧ ∀ next, step start action = some next → Throughout property next actions

theorem along_reached (condition : State → Action → Prop) (action : Action)
    (actions : List Action) :
    ∀ (start : State) (before : List Action) (reached : State),
      Along step condition start (before ++ action :: actions) →
        reach step start before = some reached → condition reached action := by
  intro start before
  induction before generalizing start with
  | nil =>
      intro reached along here
      cases here
      exact along.1
  | cons first before ih =>
      intro reached along here
      obtain ⟨next, taken, later⟩ := Option.bind_eq_some_iff.mp here
      exact ih next reached (along.2 next taken) later

/-- A condition that keeps an invariant and with it implies a property. -/
theorem along_of_condition (invariant : State → Prop) (condition property : State → Action → Prop)
    (implied : ∀ state action, invariant state → condition state action → property state action)
    (preserved : ∀ state action next, invariant state → condition state action →
      step state action = some next → invariant next) (actions : List Action) :
    ∀ start, invariant start → Along step condition start actions →
      Along step property start actions := by
  induction actions with
  | nil => exact fun _ _ _ => trivial
  | cons action actions ih =>
      intro start initial along
      refine ⟨implied start action initial along.1, ?_⟩
      intro next taken
      exact ih next (preserved start action next initial along.1 taken) (along.2 next taken)

/-- An invariant that is kept where the condition is met. -/
theorem throughout_of_condition (invariant property : State → Prop)
    (condition : State → Action → Prop) (implied : ∀ state, invariant state → property state)
    (preserved : ∀ state action next, invariant state → condition state action →
      step state action = some next → invariant next) (actions : List Action) :
    ∀ start, invariant start → Along step condition start actions →
      Throughout step property start actions := by
  induction actions with
  | nil => exact fun start initial _ => implied start initial
  | cons action actions ih =>
      intro start initial along
      refine ⟨implied start initial, ?_⟩
      intro next taken
      exact ih next (preserved start action next initial along.1 taken) (along.2 next taken)

/-- A run whose steps are all taken where the condition is met has an end. -/
theorem reaches_of_condition (invariant : State → Prop) (condition : State → Action → Prop)
    (advances : ∀ state action, invariant state → condition state action →
      ∃ next, step state action = some next ∧ invariant next) (actions : List Action) :
    ∀ start, invariant start → Along step condition start actions →
      ∃ last, reach step start actions = some last ∧ invariant last := by
  induction actions with
  | nil => exact fun start initial _ => ⟨start, rfl, initial⟩
  | cons action actions ih =>
      intro start initial along
      obtain ⟨next, taken, kept⟩ := advances start action initial along.1
      obtain ⟨last, rest, final⟩ := ih next kept (along.2 next taken)
      refine ⟨last, ?_, final⟩
      rw [reach, taken]
      exact rest

/-- A run of a relation, from one state to another. -/
inductive Runs {Shadow : Type*} (relation : Action → Shadow → Shadow → Prop) :
    List Action → Shadow → Shadow → Prop
  | nil (start : Shadow) : Runs relation [] start start
  | cons {action : Action} {actions : List Action} {start next last : Shadow}
      (taken : relation action start next) (later : Runs relation actions next last) :
      Runs relation (action :: actions) start last

end Mimisbrunnr.Lib.PartialRuns
