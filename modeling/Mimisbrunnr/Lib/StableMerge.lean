import Mathlib.Order.Lex
import Mathlib.Order.Lattice
import Mathlib.Data.List.Basic

/-!
# Stable sorting and merging

A stable sort keeps the order of items of one rank. A merge of sorted lists is a
parameter: a function that keeps the order in each list. Where no rank occurs in
two of the lists, every such merge is the stable sort of their concatenation.
-/

namespace Mimisbrunnr.Lib.StableMerge

set_option autoImplicit false

variable {α R : Type} [LinearOrder R] (rank : α → R)

def byRank (left right : α) : Bool := decide (rank left ≤ rank right)

def sort (items : List α) : List α := items.mergeSort (byRank rank)

def merge (sources : List (List α)) : List α :=
  sources.foldr (fun source merged => source.merge merged (byRank rank)) []

def Sorted (items : List α) : Prop := items.Pairwise fun left right => rank left ≤ rank right

theorem by_rank_trans (first second third : α) (left : byRank rank first second = true)
    (right : byRank rank second third = true) : byRank rank first third = true :=
  decide_eq_true (le_trans (of_decide_eq_true left) (of_decide_eq_true right))

theorem by_rank_total (first second : α) :
    (byRank rank first second || byRank rank second first) = true := by
  cases le_total (rank first) (rank second) with
  | inl below => simp [byRank, below]
  | inr above => simp [byRank, above]

theorem sorted_iff_by_rank (items : List α) :
    Sorted rank items ↔ items.Pairwise fun left right => byRank rank left right = true := by
  simp only [Sorted, byRank, decide_eq_true_eq]

theorem sorted_sort (items : List α) : Sorted rank (sort rank items) := by
  rw [sorted_iff_by_rank]
  exact List.pairwise_mergeSort (by_rank_trans rank) (by_rank_total rank) items

theorem filter_sort (items : List α) (chosen : α → Bool)
    (ordered : Sorted rank (items.filter chosen)) :
    (sort rank items).filter chosen = items.filter chosen := by
  have kept : (items.filter chosen).Sublist (sort rank items) :=
    List.sublist_mergeSort (by_rank_trans rank) (by_rank_total rank)
      ((sorted_iff_by_rank rank _).mp ordered) List.filter_sublist
  have again := kept.filter chosen
  rw [List.filter_filter] at again
  simp only [Bool.and_self] at again
  have permuted := (List.mergeSort_perm items (byRank rank)).filter chosen
  exact (again.eq_of_length permuted.length_eq.symm).symm

theorem sorted_merge (sources : List (List α)) (sorted : ∀ source ∈ sources, Sorted rank source) :
    Sorted rank (merge rank sources) := by
  induction sources with
  | nil => exact List.Pairwise.nil
  | cons source sources ih =>
      have rest := ih fun other member => sorted other (List.mem_cons_of_mem _ member)
      have first := sorted source List.mem_cons_self
      rw [sorted_iff_by_rank] at first rest ⊢
      exact List.pairwise_merge (by_rank_trans rank) (by_rank_total rank) source _ first rest

private theorem sublist_merge_left (left : List α) :
    ∀ right : List α, left.Sublist (left.merge right (byRank rank)) := by
  induction left with
  | nil => exact fun _ => List.nil_sublist _
  | cons item left ih =>
      intro right
      induction right with
      | nil => rw [List.merge_right]
      | cons other right inner =>
          rw [List.cons_merge_cons]
          split
          · exact (ih (other :: right)).cons_cons item
          · exact inner.cons other

private theorem sublist_merge_right (left : List α) :
    ∀ right : List α, right.Sublist (left.merge right (byRank rank)) := by
  induction left with
  | nil =>
      intro right
      rw [List.nil_merge]
  | cons item left ih =>
      intro right
      induction right with
      | nil => exact List.nil_sublist _
      | cons other right inner =>
          rw [List.cons_merge_cons]
          split
          · exact (ih (other :: right)).cons item
          · exact inner.cons_cons other

/-- Any merge of sorted lists: it is sorted, has the items of the lists and no others, and those
of each list in their order. -/
structure Merges (merge : List (List α) → List α) : Prop where
  sorted : ∀ sources, (∀ source ∈ sources, Sorted rank source) → Sorted rank (merge sources)
  permutes : ∀ sources, (merge sources).Perm sources.flatten
  inOrder : ∀ (sources : List (List α)), ∀ source ∈ sources, source.Sublist (merge sources)

theorem merges_merge : Merges rank (merge (α := α) rank) where
  sorted := sorted_merge rank
  permutes := by
    intro sources
    induction sources with
    | nil => exact List.Perm.refl []
    | cons source sources ih =>
        exact (List.merge_perm_append (byRank rank)).trans (ih.append_left source)
  inOrder := by
    intro sources
    induction sources with
    | nil => exact fun source member => absurd member List.not_mem_nil
    | cons first sources ih =>
        intro source member
        cases List.mem_cons.mp member with
        | inl here =>
            rw [here]
            exact sublist_merge_left rank first _
        | inr later => exact (ih source later).trans (sublist_merge_right rank first _)

theorem eq_of_filters (left : List α) :
    ∀ right, Sorted rank left → Sorted rank right →
      (∀ level, left.filter (fun item => rank item = level) =
        right.filter fun item => rank item = level) → left = right := by
  induction left with
  | nil =>
      intro right _ _ same
      cases right with
      | nil => rfl
      | cons other right =>
          have here := same (rank other)
          rw [List.filter_nil, List.filter_cons_of_pos (by simp)] at here
          cases here
  | cons item left ih =>
      intro right sortedLeft sortedRight same
      cases right with
      | nil =>
          have here := same (rank item)
          rw [List.filter_nil, List.filter_cons_of_pos (by simp)] at here
          cases here
      | cons other right =>
          have memberLeft : item ∈ other :: right := by
            have member : item ∈ (item :: left).filter (fun entry => rank entry = rank item) := by
              simp
            rw [same] at member
            exact (List.mem_filter.mp member).1
          have memberRight : other ∈ item :: left := by
            have member : other ∈ (other :: right).filter
                (fun entry => rank entry = rank other) := by
              simp
            rw [← same] at member
            exact (List.mem_filter.mp member).1
          rw [Sorted, List.pairwise_cons] at sortedLeft sortedRight
          have below : rank item ≤ rank other := by
            cases List.mem_cons.mp memberRight with
            | inl here => rw [here]
            | inr later => exact sortedLeft.1 other later
          have above : rank other ≤ rank item := by
            cases List.mem_cons.mp memberLeft with
            | inl here => rw [here]
            | inr later => exact sortedRight.1 item later
          have heads := same (rank item)
          rw [List.filter_cons_of_pos (by simp),
            List.filter_cons_of_pos (by simp [le_antisymm above below])] at heads
          have head : item = other := List.head_eq_of_cons_eq heads
          subst head
          congr 1
          apply ih right sortedLeft.2 sortedRight.2
          intro level
          have here := same level
          rw [List.filter_cons, List.filter_cons] at here
          split at here
          · exact List.tail_eq_of_cons_eq here
          · exact here

theorem sorted_level (items : List α) (level : R) :
    Sorted rank (items.filter fun item => rank item = level) := by
  apply List.pairwise_of_forall_mem_list
  intro left leftMember right rightMember
  have leftRank := of_decide_eq_true (List.mem_filter.mp leftMember).2
  have rightRank := of_decide_eq_true (List.mem_filter.mp rightMember).2
  rw [leftRank, rightRank]

/-- The items of one rank are all in one list, where no rank occurs in two. -/
private theorem filter_flatten (level : R) (sources : List (List α))
    (apart : sources.Pairwise fun left right =>
      ∀ first ∈ left, ∀ second ∈ right, rank first ≠ rank second) :
    sources.flatten.filter (fun item => rank item = level) = [] ∨
      ∃ source ∈ sources, sources.flatten.filter (fun item => rank item = level) =
        source.filter fun item => rank item = level := by
  induction sources with
  | nil => exact .inl rfl
  | cons source sources ih =>
      rw [List.pairwise_cons] at apart
      rw [List.flatten_cons, List.filter_append]
      cases here : source.filter (fun item => rank item = level) with
      | nil =>
          rw [List.nil_append]
          rcases ih apart.2 with none | ⟨other, member, same⟩
          · exact .inl none
          · exact .inr ⟨other, List.mem_cons_of_mem _ member, same⟩
      | cons item rest =>
          have found : item ∈ source.filter (fun item => rank item = level) := by
            rw [here]
            exact List.mem_cons_self
          have inside := List.mem_filter.mp found
          have none : sources.flatten.filter (fun item => rank item = level) = [] := by
            rw [List.filter_eq_nil_iff]
            intro candidate listed same
            obtain ⟨other, member, there⟩ := List.mem_flatten.mp listed
            exact apart.1 other member item inside.1 candidate there
              ((of_decide_eq_true inside.2).trans (of_decide_eq_true same).symm)
          rw [none, List.append_nil, ← here]
          exact .inr ⟨source, List.mem_cons_self, rfl⟩

theorem Merges.eq_sort {rank : α → R} {merge : List (List α) → List α}
    (merges : Merges rank merge) (sources : List (List α))
    (sorted : ∀ source ∈ sources, Sorted rank source)
    (apart : sources.Pairwise fun left right =>
      ∀ first ∈ left, ∀ second ∈ right, rank first ≠ rank second) :
    merge sources = sort rank sources.flatten := by
  apply eq_of_filters rank _ _ (merges.sorted sources sorted) (sorted_sort rank _)
  intro level
  have permuted := (merges.permutes sources).filter fun item => decide (rank item = level)
  rw [filter_sort rank _ _ (sorted_level rank _ level)]
  rcases filter_flatten rank level sources apart with none | ⟨source, member, same⟩
  · rw [none] at permuted ⊢
    exact permuted.eq_nil
  · have kept := (merges.inOrder sources source member).filter
      fun item => decide (rank item = level)
    rw [same] at permuted ⊢
    exact (kept.eq_of_length permuted.length_eq.symm).symm

theorem sort_eq_nil_iff (items : List α) : sort rank items = [] ↔ items = [] := by
  have length : (sort rank items).length = items.length := List.length_mergeSort _
  rw [← List.length_eq_zero_iff, length, List.length_eq_zero_iff]

theorem filter_sort_comm (items : List α) (chosen : α → Bool) :
    (sort rank items).filter chosen = sort rank (items.filter chosen) := by
  have sorted : Sorted rank ((sort rank items).filter chosen) :=
    List.Pairwise.filter _ (sorted_sort rank items)
  apply eq_of_filters rank _ _ sorted (sorted_sort rank _)
  intro level
  rw [filter_sort rank _ _ (sorted_level rank _ level), List.filter_comm,
    filter_sort rank _ _ (sorted_level rank _ level), List.filter_comm]

theorem sort_append (left right : List α)
    (below : ∀ first ∈ left, ∀ second ∈ right, rank first ≤ rank second) :
    sort rank (left ++ right) = sort rank left ++ sort rank right := by
  have sorted : Sorted rank (sort rank left ++ sort rank right) := by
    rw [Sorted, List.pairwise_append]
    refine ⟨sorted_sort rank left, sorted_sort rank right, ?_⟩
    intro first firstMember second secondMember
    exact below first (List.mem_mergeSort.mp firstMember) second (List.mem_mergeSort.mp secondMember)
  apply eq_of_filters rank _ _ (sorted_sort rank _) sorted
  intro level
  rw [List.filter_append, filter_sort rank _ _ (sorted_level rank _ level),
    filter_sort rank _ _ (sorted_level rank _ level),
    filter_sort rank _ _ (sorted_level rank _ level), List.filter_append]

theorem le_last (items : List α) (sorted : Sorted rank items) (last : α)
    (isLast : items.getLast? = some last) : ∀ item ∈ items, rank item ≤ rank last := by
  obtain ⟨before, rfl⟩ := List.getLast?_eq_some_iff.mp isLast
  rw [Sorted, List.pairwise_append] at sorted
  intro item member
  cases List.mem_append.mp member with
  | inl earlier => exact sorted.2.2 item earlier last (List.mem_singleton_self last)
  | inr here => rw [List.mem_singleton.mp here]

theorem last_of_level (items : List α) (last : α) (isLast : items.getLast? = some last) :
    (items.filter fun item => rank item = rank last).getLast? = some last := by
  obtain ⟨before, rfl⟩ := List.getLast?_eq_some_iff.mp isLast
  rw [List.filter_append, List.filter_cons_of_pos (by simp), List.filter_nil,
    List.getLast?_append, List.getLast?_singleton]
  rfl

theorem last_sort_append (items : List α) (item : α)
    (above : ∃ other ∈ items, rank item < rank other) :
    (sort rank (items ++ [item])).getLast? = (sort rank items).getLast? := by
  obtain ⟨other, member, less⟩ := above
  cases found : (sort rank (items ++ [item])).getLast? with
  | none =>
      have none := List.getLast?_eq_none_iff.mp found
      have present : other ∈ sort rank (items ++ [item]) :=
        List.mem_mergeSort.mpr (List.mem_append_left _ member)
      rw [none] at present
      exact absurd present List.not_mem_nil
  | some last =>
      cases before : (sort rank items).getLast? with
      | none =>
          have none := List.getLast?_eq_none_iff.mp before
          have present : other ∈ sort rank items := List.mem_mergeSort.mpr member
          rw [none] at present
          exact absurd present List.not_mem_nil
      | some highest =>
          have top := le_last rank _ (sorted_sort rank (items ++ [item])) last found
          have topBefore := le_last rank _ (sorted_sort rank items) highest before
          have otherBelow := topBefore other (List.mem_mergeSort.mpr member)
          have highestMember := List.mem_mergeSort.mp (List.mem_of_getLast? before)
          have up := top highest (List.mem_mergeSort.mpr (List.mem_append_left _ highestMember))
          have down : rank last ≤ rank highest := by
            cases List.mem_append.mp (List.mem_mergeSort.mp (List.mem_of_getLast? found)) with
            | inl inside => exact topBefore last (List.mem_mergeSort.mpr inside)
            | inr here =>
                rw [List.mem_singleton.mp here]
                exact le_of_lt (lt_of_lt_of_le less otherBelow)
          have same : rank last = rank highest := le_antisymm down up
          have elsewhere : ¬ rank item = rank last := by
            intro equal
            rw [equal, same] at less
            exact absurd otherBelow (not_le_of_gt less)
          have first := last_of_level rank _ last found
          have second := last_of_level rank _ highest before
          rw [filter_sort rank _ _ (sorted_level rank _ _), List.filter_append,
            List.filter_cons_of_neg (by simp [elsewhere]), List.filter_nil,
            List.append_nil] at first
          rw [filter_sort rank _ _ (sorted_level rank _ _), ← same, first] at second
          exact second

end Mimisbrunnr.Lib.StableMerge
