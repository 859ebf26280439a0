import Mathlib.Order.Lattice
import Mathlib.Data.List.Pairwise

/-!
# Binary search

The search halves an interval and keeps the part where the last entry that is not
above the key must lie. In entries with increasing keys it finds the value of each
key.
-/

namespace Mimisbrunnr.Lib.BinarySearch

set_option autoImplicit false

/-- The last place of an interval where `below` holds, its start if there is none. -/
def probe (below : Nat → Bool) (base size : Nat) : Nat :=
  if size ≤ 1 then base
  else probe below (if below (base + size / 2) then base + size / 2 else base) (size - size / 2)
termination_by size
decreasing_by omega

/-- A place is found that parts the interval. -/
theorem probe_eq (below : Nat → Bool) (target : Nat) :
    ∀ size base, base ≤ target → target < base + size →
      (∀ place ≤ target, below place = true) →
      (∀ place, target < place → place < base + size → below place = false) →
      probe below base size = target := by
  intro size
  induction size using Nat.strongRecOn with
  | ind size ih =>
      intro base low high before behind
      rw [probe]
      by_cases single : size ≤ 1
      · rw [if_pos single]
        omega
      · rw [if_neg single]
        by_cases right : base + size / 2 ≤ target
        · rw [if_pos (before _ right)]
          apply ih (size - size / 2) (by omega) _ right (by omega) before
          intro place above inside
          exact behind place above (by omega)
        · have left := behind (base + size / 2) (by omega) (by omega)
          rw [left, if_neg (by simp)]
          apply ih (size - size / 2) (by omega) base low (by omega) before
          intro place above inside
          exact behind place above (by omega)

section

variable {K V : Type} [LinearOrder K]

def notAbove (entries : List (K × V)) (key : K) (place : Nat) : Bool :=
  match entries[place]? with
  | some entry => entry.1 ≤ key
  | none => false

def search (entries : List (K × V)) (key : K) : Option V :=
  match entries[probe (notAbove entries key) 0 entries.length]? with
  | some entry => if entry.1 = key then some entry.2 else none
  | none => none

theorem probe_of_mem (entries : List (K × V))
    (increasing : (entries.map Prod.fst).Pairwise (· < ·)) (place : Nat) (entry : K × V)
    (found : entries[place]? = some entry) :
    probe (notAbove entries entry.1) 0 entries.length = place := by
  obtain ⟨inside, here⟩ := List.getElem?_eq_some_iff.mp found
  rw [List.pairwise_map, List.pairwise_iff_getElem] at increasing
  apply probe_eq (notAbove entries entry.1) place entries.length 0 (Nat.zero_le _) (by omega)
  · intro other atMost
    have present : entries[other]? = some entries[other] := List.getElem?_eq_getElem (by omega)
    rw [notAbove, present]
    apply decide_eq_true
    cases Nat.lt_or_eq_of_le atMost with
    | inl less =>
        have order := increasing other place (by omega) inside less
        rw [here] at order
        exact le_of_lt order
    | inr same =>
        subst same
        rw [here]
  · intro other above below
    have bound : other < entries.length := by omega
    have order := increasing place other inside bound above
    rw [here] at order
    rw [notAbove, List.getElem?_eq_getElem bound]
    exact decide_eq_false (not_le_of_gt order)

theorem search_eq_some (entries : List (K × V))
    (increasing : (entries.map Prod.fst).Pairwise (· < ·)) (key : K) (value : V) :
    search entries key = some value ↔ (key, value) ∈ entries := by
  constructor
  · intro found
    unfold search at found
    split at found
    · next entry located =>
        split at found
        · next same =>
            cases found
            rw [← same]
            exact List.mem_of_getElem? located
        · cases found
    · cases found
  · intro member
    obtain ⟨place, located⟩ := List.mem_iff_getElem?.mp member
    have probed := probe_of_mem entries increasing place (key, value) located
    rw [search, probed, located]
    simp only [if_true]

end

end Mimisbrunnr.Lib.BinarySearch
