import Mathlib.Data.List.Basic

/-!
# Reading page by page

What is read page by page is a list of which each page takes a front of what is
left. A page is empty only when nothing is left.
-/

namespace Mimisbrunnr.Lib.Paging

set_option autoImplicit false

universe u

variable {α : Type u}

/-- Pages that are taken one after the other from what is left. -/
inductive Pages : List α → List (List α) → Prop where
  | stop (left : List α) : Pages left []
  | page (front left : List α) (pages : List (List α)) (some_unless : front = [] → left = [])
      (further : Pages left pages) : Pages (front ++ left) (front :: pages)

theorem pages_start {left : List α} {pages : List (List α)} (taken : Pages left pages) :
    pages.flatten <+: left := by
  induction taken with
  | stop left => exact List.nil_prefix
  | page front left pages some_unless further ih =>
      rw [List.flatten_cons, List.prefix_append_right_inj]
      exact ih

theorem pages_of_nothing {pages : List (List α)} (taken : Pages [] pages) :
    pages.flatten = [] := List.prefix_nil.mp (pages_start taken)

theorem pages_ended {left : List α} {pages : List (List α)} (taken : Pages left pages)
    (ended : [] ∈ pages) : pages.flatten = left := by
  induction taken with
  | stop left => exact absurd ended List.not_mem_nil
  | page front left pages some_unless further ih =>
      rw [List.flatten_cons]
      rcases List.mem_cons.mp ended with last | later
      · have nothing := some_unless last.symm
        rw [nothing] at further ⊢
        rw [pages_of_nothing further]
      · rw [ih later]

theorem pages_enough {left : List α} {pages : List (List α)} (taken : Pages left pages)
    (enough : left.length ≤ pages.length) : pages.flatten = left := by
  induction taken with
  | stop left => exact (List.eq_nil_of_length_eq_zero (Nat.le_zero.mp enough)).symm
  | page front left pages some_unless further ih =>
      rw [List.flatten_cons]
      cases front with
      | nil =>
          rw [some_unless rfl] at further ⊢
          rw [pages_of_nothing further]
      | cons first rest =>
          rw [ih]
          rw [List.length_append, List.length_cons, List.length_cons] at enough
          omega

end Mimisbrunnr.Lib.Paging
