import Mimisbrunnr.Storage.Device

/-!
# Writers with areas of their own

Several programs write to a device one after another, each within an area. Where
no later area touches an earlier one, the device holds at the end what each
program has left in its area.
-/

namespace Mimisbrunnr.Storage

set_option autoImplicit false

open Mimisbrunnr.Lib.ByteStore

abbrev Area := Nat × Nat

/-- Each step is the area of a program and the device behind it. -/
def WrittenInTurn : Device → List (Area × Device) → Prop
  | _, [] => True
  | before, (area, after) :: rest =>
      ChangesWithin area.1 area.2 before after ∧ WrittenInTurn after rest

def lastDevice (start : Device) (steps : List (Area × Device)) : Device :=
  (steps.getLast?.map Prod.snd).getD start

theorem last_device_cons (start : Device) (step : Area × Device) (rest : List (Area × Device)) :
    lastDevice start (step :: rest) = lastDevice step.2 rest := by
  cases rest with
  | nil => rfl
  | cons next later =>
      simp only [lastDevice, List.getLast?_cons_cons]
      cases found : (next :: later).getLast? with
      | none => cases List.getLast?_eq_none_iff.mp found
      | some last => rfl

theorem agrees_in_turn (offset length : Nat) (steps : List (Area × Device)) :
    ∀ start, WrittenInTurn start steps →
      (∀ area ∈ steps.map Prod.fst, Apart offset length area.1 area.2) →
      AgreesOn offset length start (lastDevice start steps) := by
  induction steps with
  | nil => exact fun start _ _ => agrees_refl offset length start
  | cons step rest ih =>
      intro start written apart
      rw [List.map_cons, List.forall_mem_cons] at apart
      rw [last_device_cons]
      exact agrees_trans (agrees_of_apart written.1 apart.1) (ih step.2 written.2 apart.2)

def InTurnApart (areas : List Area) : Prop :=
  areas.Pairwise fun earlier later => Apart earlier.1 earlier.2 later.1 later.2

instance (areas : List Area) : Decidable (InTurnApart areas) :=
  inferInstanceAs (Decidable (List.Pairwise _ _))

theorem area_in_turn (steps : List (Area × Device)) (apart : InTurnApart (steps.map Prod.fst)) :
    ∀ start, WrittenInTurn start steps → ∀ step ∈ steps,
      AgreesOn step.1.1 step.1.2 step.2 (lastDevice start steps) := by
  induction steps with
  | nil => exact fun _ _ _ member => absurd member List.not_mem_nil
  | cons first rest ih =>
      intro start written step member
      rw [InTurnApart, List.map_cons, List.pairwise_cons] at apart
      rw [last_device_cons]
      cases List.mem_cons.mp member with
      | inl here =>
          rw [here]
          exact agrees_in_turn _ _ rest first.2 written.2 apart.1
      | inr later => exact ih apart.2 first.2 written.2 step later

end Mimisbrunnr.Storage
