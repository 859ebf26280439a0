import Mathlib.Data.List.Basic

/-!
# The top of a chain

Among finitely many elements of which any two are comparable there is one above
all others, and it is the first, and the only one, that no other is above.
-/

namespace Mimisbrunnr.Lib.Chains

set_option autoImplicit false

variable {α : Type*}

/-- Every other element of the list is below the top. -/
structure IsTop (above : α → α → Prop) (list : List α) (top : α) : Prop where
  member : top ∈ list
  dominates : ∀ other ∈ list, other ≠ top → above top other

theorem top_unique (above : α → α → Prop) (list : List α)
    (antisymm : ∀ a b, above a b → above b a → a = b) (left right : α)
    (first : IsTop above list left) (second : IsTop above list right) : left = right := by
  by_contra different
  have dominates := first.dominates right second.member fun same => different same.symm
  exact different (antisymm left right dominates (second.dominates left first.member different))

theorem exists_top (above : α → α → Prop) (trans : ∀ a b c, above a b → above b c → above a c)
    (list : List α) (chain : ∀ a ∈ list, ∀ b ∈ list, a ≠ b → above a b ∨ above b a)
    (some_ : list ≠ []) : ∃ top, IsTop above list top := by
  induction list with
  | nil => exact absurd rfl some_
  | cons head rest ih =>
      by_cases last : rest = []
      · rw [last]
        exact ⟨head, List.mem_singleton_self head, fun other member different =>
          absurd (List.mem_singleton.mp member) different⟩
      · have restChain (a : α) (first : a ∈ rest) (b : α) (second : b ∈ rest) :=
          chain a (List.mem_cons_of_mem head first) b (List.mem_cons_of_mem head second)
        obtain ⟨top, isTop⟩ := ih restChain last
        have inside := List.mem_cons_of_mem head isTop.member
        by_cases same : head = top
        · refine ⟨top, inside, ?_⟩
          intro other member different
          cases List.mem_cons.mp member with
          | inl first => exact absurd (first.trans same) different
          | inr later => exact isTop.dominates other later different
        · cases chain head List.mem_cons_self top inside same with
          | inl higher =>
              refine ⟨head, List.mem_cons_self, ?_⟩
              intro other member different
              cases List.mem_cons.mp member with
              | inl first => exact absurd first different
              | inr later =>
                  by_cases equal : other = top
                  · rw [equal]
                    exact higher
                  · exact trans head top other higher (isTop.dominates other later equal)
          | inr lower =>
              refine ⟨top, inside, ?_⟩
              intro other member different
              cases List.mem_cons.mp member with
              | inl first =>
                  rw [first]
                  exact lower
              | inr later => exact isTop.dominates other later different

/-- The first element that no other is above is the top. -/
theorem find_undominated [DecidableEq α] (above : α → α → Bool) (list : List α) (top : α)
    (antisymm : ∀ a b, above a b = true → above b a = true → a = b)
    (isTop : IsTop (fun a b => above a b = true) list top) :
    (list.find? fun candidate =>
      list.all fun other => other = candidate || !above other candidate) = some top := by
  have undominated : (list.all fun other => other = top || !above other top) = true := by
    rw [List.all_eq_true]
    intro other member
    rw [Bool.or_eq_true, decide_eq_true_iff, Bool.not_eq_true', ← Bool.not_eq_true]
    by_cases same : other = top
    · exact Or.inl same
    · exact Or.inr fun higher =>
        same (antisymm other top higher (isTop.dominates other member same))
  cases found : list.find? fun candidate =>
      list.all fun other => other = candidate || !above other candidate with
  | none => exact absurd undominated (List.find?_eq_none.mp found top isTop.member)
  | some candidate =>
      have accepted := List.find?_some found
      rw [List.all_eq_true] at accepted
      have free := accepted top isTop.member
      rw [Bool.or_eq_true, decide_eq_true_iff, Bool.not_eq_true', ← Bool.not_eq_true] at free
      by_cases same : candidate = top
      · rw [same]
      · have dominates := isTop.dominates candidate (List.mem_of_find?_eq_some found) same
        cases free with
        | inl equal => exact absurd equal.symm same
        | inr clear => exact absurd dominates clear

end Mimisbrunnr.Lib.Chains
