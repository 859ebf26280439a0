import Mathlib.Data.List.Perm.Basic
import Mathlib.Data.List.Nodup

/-!
# Growable arrays as lists

The operations of a growable array that the development needs: removal that
fills the hole with the last element, the removal of the first element accepted
by a test, and the cut into chunks of a fixed length. They are stated for lists
over an arbitrary type; only the order of the remaining elements distinguishes
the first from an ordinary erasure, so its main fact is a permutation.
-/

namespace Mimisbrunnr.Lib.Vec

set_option autoImplicit false

variable {α : Type*}

/-- Removal of position `i` in constant time: the last element takes the
freed position. A position outside the list leaves it unchanged. -/
def swapRemove (xs : List α) (i : Nat) : List α :=
  if i < xs.length then
    match xs.getLast? with
    | none => xs
    | some last => (xs.set i last).dropLast
  else xs

theorem swap_remove_outside (xs : List α) (i : Nat) (outside : xs.length ≤ i) :
    swapRemove xs i = xs := by
  simp [swapRemove, Nat.not_lt.mpr outside]

theorem swap_remove_append_last (xs : List α) (last : α) :
    swapRemove (xs ++ [last]) xs.length = xs := by
  simp [swapRemove]

theorem swap_remove_append_inner (xs : List α) (last : α) (i : Nat) (inner : i < xs.length) :
    swapRemove (xs ++ [last]) i = xs.set i last := by
  have bound : i < (xs ++ [last]).length := by
    simp only [List.length_append, List.length_singleton]
    omega
  rw [swapRemove, if_pos bound]
  simp [inner]

theorem length_swap_remove (xs : List α) (i : Nat) (bound : i < xs.length) :
    (swapRemove xs i).length = xs.length - 1 := by
  rcases List.eq_nil_or_concat xs with rfl | ⟨init, last, rfl⟩
  · simp at bound
  · rw [List.concat_eq_append] at bound ⊢
    simp only [List.length_append, List.length_singleton] at bound
    rcases Nat.lt_or_ge i init.length with inner | outer
    · simp [swap_remove_append_inner init last i inner]
    · have atEnd : i = init.length := by omega
      subst atEnd
      simp [swap_remove_append_last]

/-- Position by position: the freed position holds the old last element, every
other surviving position is unchanged. -/
theorem getElem?_swap_remove (xs : List α) (i j : Nat) (bound : i < xs.length) :
    (swapRemove xs i)[j]? =
      if j + 1 < xs.length then
        if j = i then xs[xs.length - 1]? else xs[j]?
      else none := by
  rcases List.eq_nil_or_concat xs with rfl | ⟨init, last, rfl⟩
  · simp at bound
  · rw [List.concat_eq_append] at bound ⊢
    simp only [List.length_append, List.length_singleton] at bound
    rcases Nat.lt_or_ge i init.length with inner | outer
    · rw [swap_remove_append_inner init last i inner]
      by_cases short : j < init.length
      · have room : j + 1 < (init ++ [last]).length := by
          simp only [List.length_append, List.length_singleton]
          omega
        rw [if_pos room]
        by_cases same : j = i
        · subst same
          simp [inner]
        · rw [if_neg same, List.getElem?_set_ne (Ne.symm same),
            List.getElem?_append_left short]
      · have past : ¬ j + 1 < (init ++ [last]).length := by
          simp only [List.length_append, List.length_singleton]
          omega
        rw [if_neg past]
        simp only [List.getElem?_eq_none_iff, List.length_set]
        omega
    · have atEnd : i = init.length := by omega
      subst atEnd
      rw [swap_remove_append_last]
      by_cases short : j < init.length
      · have room : j + 1 < (init ++ [last]).length := by
          simp only [List.length_append, List.length_singleton]
          omega
        have different : j ≠ init.length := by omega
        rw [if_pos room, if_neg different, List.getElem?_append_left short]
      · have past : ¬ j + 1 < (init ++ [last]).length := by
          simp only [List.length_append, List.length_singleton]
          omega
        rw [if_neg past]
        simp only [List.getElem?_eq_none_iff]
        omega

theorem swap_remove_perm_eraseIdx (xs : List α) (i : Nat) :
    (swapRemove xs i).Perm (xs.eraseIdx i) := by
  rcases Nat.lt_or_ge i xs.length with bound | outside
  · rcases List.eq_nil_or_concat xs with rfl | ⟨init, last, rfl⟩
    · simp at bound
    · rw [List.concat_eq_append] at bound ⊢
      simp only [List.length_append, List.length_singleton] at bound
      rcases Nat.lt_or_ge i init.length with inner | outer
      · rw [swap_remove_append_inner init last i inner, List.set_eq_take_append_cons_drop,
          if_pos inner, List.eraseIdx_append_of_lt_length inner, List.eraseIdx_eq_take_drop_succ,
          List.append_assoc]
        exact List.Perm.append_left _ (List.perm_append_singleton _ _).symm
      · have atEnd : i = init.length := by omega
        subst atEnd
        rw [swap_remove_append_last, List.eraseIdx_append_of_length_le (Nat.le_refl _)]
        simp
  · rw [swap_remove_outside xs i outside, List.eraseIdx_of_length_le outside]

theorem cons_swap_remove_perm (xs : List α) (i : Nat) (x : α) (present : xs[i]? = some x) :
    (x :: swapRemove xs i).Perm xs := by
  have bound : i < xs.length := (List.getElem?_eq_some_iff.mp present).1
  have found : xs[i] = x := (List.getElem?_eq_some_iff.mp present).2
  have decomposed : xs = xs.take i ++ x :: xs.drop (i + 1) := by
    rw [← found, List.getElem_cons_drop, List.take_append_drop]
  calc
    (x :: swapRemove xs i).Perm (x :: xs.eraseIdx i) :=
      (swap_remove_perm_eraseIdx xs i).cons x
    _ = x :: (xs.take i ++ xs.drop (i + 1)) := by rw [List.eraseIdx_eq_take_drop_succ]
    List.Perm _ (xs.take i ++ x :: xs.drop (i + 1)) := List.perm_middle.symm
    _ = xs := decomposed.symm

theorem mem_of_mem_swap_remove (xs : List α) (i : Nat) (x : α)
    (member : x ∈ swapRemove xs i) : x ∈ xs := by
  have erased : x ∈ xs.eraseIdx i := (swap_remove_perm_eraseIdx xs i).mem_iff.mp member
  exact List.mem_of_mem_eraseIdx erased

theorem nodup_swap_remove (xs : List α) (i : Nat) (distinct : xs.Nodup) :
    (swapRemove xs i).Nodup := by
  rw [(swap_remove_perm_eraseIdx xs i).nodup_iff]
  exact distinct.sublist (List.eraseIdx_sublist xs i)

/-- In a list without repetition, removing the position of `x` removes
exactly `x`. -/
theorem mem_swap_remove_iff (xs : List α) (i : Nat) (x y : α) (distinct : xs.Nodup)
    (present : xs[i]? = some x) : y ∈ swapRemove xs i ↔ y ∈ xs ∧ y ≠ x := by
  have whole := cons_swap_remove_perm xs i x present
  have fresh : x ∉ swapRemove xs i := (List.nodup_cons.mp (whole.nodup_iff.mpr distinct)).1
  rw [← whole.mem_iff, List.mem_cons]
  constructor
  · intro member
    exact ⟨Or.inr member, fun same => fresh (same ▸ member)⟩
  · rintro ⟨rfl | member, different⟩
    · exact absurd rfl different
    · exact member

/-- Removal of the first element that passes the test, by swapping. -/
def removeFirst (p : α → Bool) (xs : List α) : List α :=
  match xs.findIdx? p with
  | some i => swapRemove xs i
  | none => xs

theorem remove_first_none (p : α → Bool) (xs : List α) (absent : xs.find? p = none) :
    removeFirst p xs = xs := by
  have missing : xs.findIdx? p = none := by
    rw [List.findIdx?_eq_none_iff]
    intro x member
    simpa using List.find?_eq_none.mp absent x member
  simp [removeFirst, missing]

theorem cons_remove_first_perm (p : α → Bool) (xs : List α) (x : α) (found : xs.find? p = some x) :
    (x :: removeFirst p xs).Perm xs := by
  have position : ∃ i, xs.findIdx? p = some i ∧ xs[i]? = some x := by
    induction xs with
    | nil => simp at found
    | cons y ys ih =>
        by_cases accepted : p y = true
        · have same : y = x := by simpa [List.find?_cons, accepted] using found
          exact ⟨0, by simp [List.findIdx?_cons, accepted], by simp [same]⟩
        · have rejected : p y = false := by simpa using accepted
          have later : ys.find? p = some x := by simpa [List.find?_cons, rejected] using found
          have tail := ih later
          cases tail with
          | intro i facts =>
              refine ⟨i + 1, ?_, ?_⟩
              · simp [List.findIdx?_cons, rejected, facts.1]
              · simpa using facts.2
  cases position with
  | intro i facts =>
      have unfolded : removeFirst p xs = swapRemove xs i := by simp [removeFirst, facts.1]
      rw [unfolded]
      exact cons_swap_remove_perm xs i x facts.2

theorem mem_of_mem_remove_first (p : α → Bool) (xs : List α) (y : α)
    (member : y ∈ removeFirst p xs) : y ∈ xs := by
  unfold removeFirst at member
  split at member
  · exact mem_of_mem_swap_remove _ _ _ member
  · exact member

theorem mem_remove_first_of_rejected (p : α → Bool) (xs : List α) (y : α) (member : y ∈ xs)
    (rejected : p y = false) : y ∈ removeFirst p xs := by
  rcases found : xs.find? p with _ | x
  · rw [remove_first_none p xs found]
    exact member
  · have whole := cons_remove_first_perm p xs x found
    have accepted : p x = true := List.find?_some found
    have cases_ : y = x ∨ y ∈ removeFirst p xs := by
      simpa using whole.mem_iff.mpr member
    cases cases_ with
    | inl same =>
        rw [same, accepted] at rejected
        cases rejected
    | inr kept => exact kept

/-- Where a key determines the element, the removal takes all elements with the key. -/
theorem mem_remove_first_keyed {κ : Type*} (key : α → Option κ) (k : κ) (p : α → Bool)
    (xs : List α) (tests : ∀ x, p x = true ↔ key x = some k)
    (distinct : (xs.filterMap key).Nodup) (y : α) :
    y ∈ removeFirst p xs ↔ y ∈ xs ∧ key y ≠ some k := by
  cases found : xs.find? p with
  | none =>
      rw [remove_first_none p xs found]
      have rejected (member : y ∈ xs) : key y ≠ some k := by
        intro keyed
        exact List.find?_eq_none.mp found y member ((tests y).mpr keyed)
      exact ⟨fun member => ⟨member, rejected member⟩, fun both => both.1⟩
  | some x =>
      have whole := cons_remove_first_perm p xs x found
      have keyed : key x = some k := (tests x).mp (List.find?_some found)
      have mapped := (whole.filterMap key).nodup_iff.mpr distinct
      rw [List.filterMap_cons_some keyed, List.nodup_cons] at mapped
      have apart (kept : y ∈ removeFirst p xs) : key y ≠ some k := by
        intro same
        exact mapped.1 (List.mem_filterMap.mpr ⟨y, kept, same⟩)
      rw [← whole.mem_iff, List.mem_cons]
      apply Iff.intro
      · intro kept
        exact ⟨Or.inr kept, apart kept⟩
      · intro both
        cases both.1 with
        | inl same => exact absurd (same ▸ keyed) both.2
        | inr kept => exact kept

theorem nodup_keys_remove_first {κ : Type*} (key : α → Option κ) (p : α → Bool) (xs : List α)
    (distinct : (xs.filterMap key).Nodup) : ((removeFirst p xs).filterMap key).Nodup := by
  cases found : xs.find? p with
  | none =>
      rw [remove_first_none p xs found]
      exact distinct
  | some x =>
      have whole := cons_remove_first_perm p xs x found
      have mapped := (whole.filterMap key).nodup_iff.mpr distinct
      apply List.Nodup.sublist _ mapped
      exact (List.sublist_cons_self x (removeFirst p xs)).filterMap key

theorem eq_of_same_key {κ : Type*} (key : α → Option κ) (xs : List α) (k : κ) (x y : α)
    (distinct : (xs.filterMap key).Nodup) (memX : x ∈ xs) (memY : y ∈ xs)
    (keyX : key x = some k) (keyY : key y = some k) : x = y := by
  induction xs with
  | nil => cases memX
  | cons head rest ih =>
      cases keyHead : key head with
      | none =>
          rw [List.filterMap_cons_none keyHead] at distinct
          have later (z : α) (member : z ∈ head :: rest) (keyed : key z = some k) : z ∈ rest := by
            cases member with
            | head => rw [keyHead] at keyed; cases keyed
            | tail _ tail => exact tail
          exact ih distinct (later x memX keyX) (later y memY keyY)
      | some headKey =>
          rw [List.filterMap_cons_some keyHead, List.nodup_cons] at distinct
          have fresh (z : α) (tail : z ∈ rest) (keyed : key z = some k) : headKey ≠ k := by
            intro same
            subst same
            exact distinct.1 (List.mem_filterMap.mpr ⟨z, tail, keyed⟩)
          cases memX with
          | head =>
              rw [keyHead] at keyX
              cases memY with
              | head => rfl
              | tail _ tailY => exact absurd (Option.some.inj keyX) (fresh y tailY keyY)
          | tail _ tailX =>
              cases memY with
              | head =>
                  rw [keyHead] at keyY
                  exact absurd (Option.some.inj keyY) (fresh x tailX keyX)
              | tail _ tailY => exact ih distinct.2 tailX tailY

theorem mem_push_missing (kept rest : List α) (first x : α) [Decidable (first ∈ kept)] :
    (x ∈ (if first ∈ kept then kept else kept ++ [first]) ∨ x ∈ rest) ↔
      x ∈ kept ∨ x = first ∨ x ∈ rest := by
  by_cases present : first ∈ kept
  · rw [if_pos present]
    constructor
    · rintro (old | later)
      · exact Or.inl old
      · exact Or.inr (Or.inr later)
    · rintro (old | rfl | later)
      · exact Or.inl old
      · exact Or.inl present
      · exact Or.inr later
  · rw [if_neg present, List.mem_append, List.mem_singleton, or_assoc]

def pieces (size : Nat) : Nat → List α → List (List α)
  | 0, _ => []
  | count + 1, list => list.take size :: pieces size count (list.drop size)

def chunks (size : Nat) (list : List α) : List (List α) :=
  pieces size ((list.length + (size - 1)) / size) list

@[simp] theorem length_pieces (size count : Nat) : ∀ list : List α, (pieces size count list).length = count := by
  induction count with
  | zero =>
      intro list
      rfl
  | succ count ih =>
      intro list
      rw [pieces, List.length_cons, ih]

theorem pieces_eq_map (size count : Nat) : ∀ list : List α,
    pieces size count list = (List.range count).map fun i => (list.drop (i * size)).take size := by
  induction count with
  | zero =>
      intro list
      rfl
  | succ count ih =>
      intro list
      rw [pieces, ih, List.range_succ_eq_map, List.map_cons, List.map_map, Nat.zero_mul,
        List.drop_zero]
      congr 1
      apply List.map_congr_left
      intro i _
      rw [Function.comp_apply, List.drop_drop, Nat.succ_mul, Nat.add_comm]

theorem length_of_mem_pieces (size count : Nat) :
    ∀ (list piece : List α), piece ∈ pieces size count list → piece.length ≤ size := by
  induction count with
  | zero =>
      intro list piece member
      exact absurd member List.not_mem_nil
  | succ count ih =>
      intro list piece member
      cases List.mem_cons.mp member with
      | inl first =>
          rw [first, List.length_take]
          exact Nat.min_le_left _ _
      | inr later => exact ih _ piece later

theorem flatten_pieces (size count : Nat) :
    ∀ list : List α, list.length ≤ count * size → (pieces size count list).flatten = list := by
  induction count with
  | zero =>
      intro list short
      rw [Nat.zero_mul] at short
      rw [List.eq_nil_of_length_eq_zero (Nat.le_zero.mp short)]
      rfl
  | succ count ih =>
      intro list short
      rw [Nat.succ_mul] at short
      rw [pieces, List.flatten_cons, ih _ (by rw [List.length_drop]; omega), List.take_append_drop]

theorem flatten_chunks (size : Nat) (some_size : 0 < size) (list : List α) :
    (chunks size list).flatten = list := by
  apply flatten_pieces
  have division := Nat.div_add_mod (list.length + (size - 1)) size
  have rest := Nat.mod_lt (list.length + (size - 1)) some_size
  rw [Nat.mul_comm] at division
  omega

theorem length_of_mem_chunks (size : Nat) (list piece : List α) (member : piece ∈ chunks size list) :
    piece.length ≤ size :=
  length_of_mem_pieces size _ list piece member

theorem exists_left_of_mem {β : Type*} {holds : α → β → Prop} {left : List α} {right : List β}
    (pointwise : List.Forall₂ holds left right) (y : β) (member : y ∈ right) :
    ∃ x ∈ left, holds x y := by
  induction pointwise with
  | nil => cases member
  | cons head _ ih =>
      rcases List.mem_cons.mp member with rfl | later
      · exact ⟨_, List.mem_cons_self, head⟩
      · obtain ⟨x, inside, related⟩ := ih later
        exact ⟨x, List.mem_cons_of_mem _ inside, related⟩

theorem exists_right_of_mem {β : Type*} {holds : α → β → Prop} {left : List α} {right : List β}
    (pointwise : List.Forall₂ holds left right) (x : α) (member : x ∈ left) :
    ∃ y ∈ right, holds x y := by
  have flipped : List.Forall₂ (flip holds) right left := pointwise.flip
  exact exists_left_of_mem flipped x member

end Mimisbrunnr.Lib.Vec
