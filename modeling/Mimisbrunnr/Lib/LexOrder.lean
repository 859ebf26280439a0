import Mathlib.Data.List.Lex
import Mathlib.Order.Lattice

/-!
# The order of lists

Lists are compared element by element. Lists of one length are compared in front
of what follows them, and filling lists up with the least element to one length
keeps their order.
-/

namespace Mimisbrunnr.Lib.LexOrder

set_option autoImplicit false

section

variable {α : Type} [LinearOrder α]

theorem cons_le_cons_iff (head head' : α) (left right : List α) :
    head :: left ≤ head' :: right ↔ head < head' ∨ head = head' ∧ left ≤ right := by
  rw [← not_lt, List.cons_lt_cons_iff, not_or, not_and, not_lt, not_lt]
  constructor
  · intro both
    cases lt_or_eq_of_le both.1 with
    | inl less => exact Or.inl less
    | inr equal => exact Or.inr ⟨equal, both.2 equal.symm⟩
  · intro either
    cases either with
    | inl less => exact ⟨le_of_lt less, fun equal => absurd less (by rw [equal]; exact lt_irrefl _)⟩
    | inr equal => exact ⟨le_of_eq equal.1, fun _ => equal.2⟩

theorem not_cons_le_nil (head : α) (list : List α) : ¬ head :: list ≤ [] :=
  not_le.mpr (List.nil_lt_cons head list)

theorem nil_le (list : List α) : [] ≤ list := not_lt.mp (List.not_lt_nil list)

theorem append_lt_append_iff (left : List α) :
    ∀ (left' right right' : List α), left.length = left'.length →
      (left ++ right < left' ++ right' ↔ left < left' ∨ left = left' ∧ right < right') := by
  induction left with
  | nil =>
      intro left' right right' same
      rw [List.eq_nil_of_length_eq_zero same.symm]
      simp
  | cons head left ih =>
      intro left' right right' same
      cases left' with
      | nil => cases same
      | cons head' left' =>
          rw [List.cons_append, List.cons_append, List.cons_lt_cons_iff, List.cons_lt_cons_iff,
            ih left' right right' (Nat.succ.inj same), List.cons.injEq]
          constructor
          · intro less
            cases less with
            | inl first => exact Or.inl (Or.inl first)
            | inr later =>
                cases later.2 with
                | inl part => exact Or.inl (Or.inr ⟨later.1, part⟩)
                | inr part => exact Or.inr ⟨⟨later.1, part.1⟩, part.2⟩
          · intro less
            cases less with
            | inl part =>
                cases part with
                | inl first => exact Or.inl first
                | inr later => exact Or.inr ⟨later.1, Or.inl later.2⟩
            | inr part => exact Or.inr ⟨part.1.1, Or.inr ⟨part.1.2, part.2⟩⟩

theorem append_le_append_iff (left left' right right' : List α)
    (same : left.length = left'.length) :
    left ++ right ≤ left' ++ right' ↔ left < left' ∨ left = left' ∧ right ≤ right' := by
  rw [← not_lt, append_lt_append_iff left' left right' right same.symm, not_or, not_and, not_lt]
  constructor
  · intro both
    cases lt_or_eq_of_le both.1 with
    | inl less => exact Or.inl less
    | inr equal => exact Or.inr ⟨equal, not_lt.mp (both.2 equal.symm)⟩
  · intro either
    cases either with
    | inl less => exact ⟨le_of_lt less, fun equal => absurd less (by rw [equal]; exact lt_irrefl _)⟩
    | inr equal => exact ⟨le_of_eq equal.1, fun _ => not_lt.mpr equal.2⟩

end

/-- A list cut or filled up to a length. -/
def fill {α : Type} (least : α) : Nat → List α → List α
  | 0, _ => []
  | width + 1, [] => least :: fill least width []
  | width + 1, head :: rest => head :: fill least width rest

section

variable {α : Type} (least : α)

@[simp] theorem length_fill (width : Nat) : ∀ list, (fill least width list).length = width := by
  induction width with
  | zero =>
      intro list
      rfl
  | succ width ih =>
      intro list
      cases list with
      | nil => rw [fill, List.length_cons, ih]
      | cons head rest => rw [fill, List.length_cons, ih]

theorem fill_nil (width : Nat) : fill least width [] = List.replicate width least := by
  induction width with
  | zero => rfl
  | succ width ih => rw [fill, ih, List.replicate_succ]

theorem fill_eq (width : Nat) :
    ∀ list, fill least width list =
      list.take width ++ List.replicate (width - list.length) least := by
  induction width with
  | zero =>
      intro list
      rw [fill, List.take_zero, Nat.zero_sub]
      rfl
  | succ width ih =>
      intro list
      cases list with
      | nil => rw [fill, fill_nil, List.take_nil, List.nil_append, List.length_nil, Nat.sub_zero,
          List.replicate_succ]
      | cons head rest =>
          rw [fill, ih, List.take_succ_cons, List.cons_append, List.length_cons,
            Nat.succ_sub_succ]

theorem take_fill (width more : Nat) :
    ∀ list, (fill least (width + more) list).take width = fill least width list := by
  induction width with
  | zero =>
      intro list
      rfl
  | succ width ih =>
      intro list
      rw [Nat.succ_add]
      cases list with
      | nil => rw [fill, fill, List.take_succ_cons, ih]
      | cons head rest => rw [fill, fill, List.take_succ_cons, ih]

end

section

variable {α : Type} [LinearOrder α] (least : α)

theorem take_lt_fill_iff (bottom : ∀ a, least ≤ a) (width : Nat) :
    ∀ top list : List α, width ≤ top.length →
      (top.take width < fill least width list ↔ top.take width < list.take width) := by
  induction width with
  | zero =>
      intro top list _
      rfl
  | succ width ih =>
      intro top list long
      cases top with
      | nil => cases long
      | cons head top =>
          have rest := Nat.le_of_succ_le_succ long
          cases list with
          | nil =>
              have nothing : ¬ top.take width < fill least width [] := by
                rw [ih top [] rest, List.take_nil]
                exact List.not_lt_nil _
              rw [fill, List.take_succ_cons, List.take_nil, List.cons_lt_cons_iff]
              constructor
              · intro either
                cases either with
                | inl less => exact absurd less (not_lt.mpr (bottom head))
                | inr both => exact absurd both.2 nothing
              · intro less
                exact absurd less (List.not_lt_nil _)
          | cons head' list =>
              rw [fill, List.take_succ_cons, List.take_succ_cons, List.cons_lt_cons_iff,
                List.cons_lt_cons_iff, ih top list rest]

theorem fill_le_fill (bottom : ∀ a, least ≤ a) (width : Nat) :
    ∀ left right, left ≤ right → fill least width left ≤ fill least width right := by
  induction width with
  | zero =>
      intro left right _
      exact le_refl _
  | succ width ih =>
      intro left right le
      cases left with
      | nil =>
          cases right with
          | nil => exact le_refl _
          | cons head rest =>
              rw [fill, fill, cons_le_cons_iff]
              cases lt_or_eq_of_le (bottom head) with
              | inl less => exact Or.inl less
              | inr equal => exact Or.inr ⟨equal, ih [] rest (nil_le rest)⟩
      | cons head left =>
          cases right with
          | nil => exact absurd le (not_cons_le_nil _ _)
          | cons head' right =>
              rw [cons_le_cons_iff] at le
              rw [fill, fill, cons_le_cons_iff]
              cases le with
              | inl less => exact Or.inl less
              | inr both => exact Or.inr ⟨both.1, ih left right both.2⟩

theorem length_le_of_fill_eq (width : Nat) :
    ∀ left right, left ≤ right → fill least width left = fill least width right →
      right.length ≤ width → left.length ≤ right.length := by
  induction width with
  | zero =>
      intro left right le _ ends
      rw [List.eq_nil_of_length_eq_zero (Nat.le_zero.mp ends)] at le ⊢
      cases left with
      | nil => exact Nat.le_refl _
      | cons head left => exact absurd le (not_cons_le_nil _ _)
  | succ width ih =>
      intro left right le same ends
      cases right with
      | nil =>
          cases left with
          | nil => exact Nat.le_refl _
          | cons head left => exact absurd le (not_cons_le_nil _ _)
      | cons head' right =>
          cases left with
          | nil => exact Nat.zero_le _
          | cons head left =>
              rw [fill, fill, List.cons.injEq] at same
              rw [cons_le_cons_iff, same.1] at le
              have tails : left ≤ right := by
                cases le with
                | inl less => exact absurd less (lt_irrefl _)
                | inr both => exact both.2
              rw [List.length_cons, List.length_cons] at *
              exact Nat.succ_le_succ
                (ih left right tails same.2 (Nat.le_of_succ_le_succ ends))

end

end Mimisbrunnr.Lib.LexOrder
