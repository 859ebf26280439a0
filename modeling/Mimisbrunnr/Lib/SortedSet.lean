import Mathlib.Order.Defs.LinearOrder
import Mathlib.Data.Finset.Card

/-!
# Ordered sets as strictly increasing lists

Insertion into an ordered set whose iteration order is ascending. A strictly
increasing list is determined by its members, so two facts describe the
structure: membership after an insertion, and that the list stays increasing.
-/

namespace Mimisbrunnr.Lib.SortedSet

set_option autoImplicit false

variable {α : Type*} [LinearOrder α]

def insert (x : α) : List α → List α
  | [] => [x]
  | y :: ys =>
      if x < y then x :: y :: ys
      else if x = y then y :: ys
      else y :: insert x ys

def ofList (xs : List α) : List α := xs.foldl (fun set x => insert x set) []

@[simp] theorem mem_insert (x y : α) (set : List α) : y ∈ insert x set ↔ y = x ∨ y ∈ set := by
  induction set with
  | nil => simp [insert]
  | cons z zs ih =>
      unfold insert
      split
      · simp
      · split
        · next _ same =>
            subst same
            simp
        · simp only [List.mem_cons, ih]
          tauto

theorem increasing_insert (x : α) (set : List α) (increasing : set.Pairwise (· < ·)) :
    (insert x set).Pairwise (· < ·) := by
  induction set with
  | nil => simp [insert]
  | cons z zs ih =>
      obtain ⟨below, rest⟩ := List.pairwise_cons.mp increasing
      unfold insert
      split
      · next smaller =>
          refine List.pairwise_cons.mpr ⟨?_, increasing⟩
          intro y member
          rcases List.mem_cons.mp member with rfl | later
          · exact smaller
          · exact lt_trans smaller (below y later)
      · next notSmaller =>
          split
          · exact increasing
          · next different =>
              refine List.pairwise_cons.mpr ⟨?_, ih rest⟩
              intro y member
              rcases (mem_insert x y zs).mp member with rfl | later
              · exact lt_of_le_of_ne (not_lt.mp notSmaller) (Ne.symm different)
              · exact below y later

theorem of_list_members_increasing (xs acc : List α) (increasing : acc.Pairwise (· < ·)) :
    (∀ y, y ∈ xs.foldl (fun set x => insert x set) acc ↔ y ∈ xs ∨ y ∈ acc) ∧
      (xs.foldl (fun set x => insert x set) acc).Pairwise (· < ·) := by
  induction xs generalizing acc with
  | nil => exact ⟨by simp, increasing⟩
  | cons x xs ih =>
      obtain ⟨members, sorted⟩ := ih (insert x acc) (increasing_insert x acc increasing)
      refine ⟨?_, sorted⟩
      intro y
      rw [List.foldl_cons, members, mem_insert, List.mem_cons]
      tauto

@[simp] theorem mem_of_list (xs : List α) (y : α) : y ∈ ofList xs ↔ y ∈ xs := by
  simpa [ofList] using (of_list_members_increasing xs [] List.Pairwise.nil).1 y

theorem increasing_of_list (xs : List α) : (ofList xs).Pairwise (· < ·) :=
  (of_list_members_increasing xs [] List.Pairwise.nil).2

theorem increasing_ext (xs ys : List α) (left : xs.Pairwise (· < ·)) (right : ys.Pairwise (· < ·))
    (same : ∀ z, z ∈ xs ↔ z ∈ ys) : xs = ys := by
  have distinct (zs : List α) (sorted : zs.Pairwise (· < ·)) : zs.Nodup :=
    sorted.imp fun less => ne_of_lt less
  have permutation : xs.Perm ys :=
    (List.perm_ext_iff_of_nodup (distinct xs left) (distinct ys right)).mpr same
  exact permutation.eq_of_pairwise (fun a b _ _ less greater => absurd greater (lt_asymm less))
    left right

/-- The members of a finite set in increasing order. -/
def ofFinset (set : Finset α) : List α :=
  Quotient.liftOn set.val ofList fun xs ys permuted =>
    increasing_ext _ _ (increasing_of_list xs) (increasing_of_list ys) fun z => by
      rw [mem_of_list, mem_of_list]
      exact List.Perm.mem_iff permuted

@[simp] theorem mem_of_finset (set : Finset α) (y : α) : y ∈ ofFinset set ↔ y ∈ set := by
  obtain ⟨⟨xs⟩, distinct⟩ := set
  exact mem_of_list xs y

theorem increasing_of_finset (set : Finset α) : (ofFinset set).Pairwise (· < ·) := by
  obtain ⟨⟨xs⟩, distinct⟩ := set
  exact increasing_of_list xs

@[simp] theorem length_of_finset (set : Finset α) : (ofFinset set).length = set.card := by
  have distinct : (ofFinset set).Nodup := (increasing_of_finset set).imp fun less => ne_of_lt less
  rw [← List.toFinset_card_of_nodup distinct]
  congr 1
  ext entry
  rw [List.mem_toFinset, mem_of_finset]

end Mimisbrunnr.Lib.SortedSet
