import Mathlib.Data.List.Basic

/-!
# Chains in consecutive slots

Numbered slots are filled from the front with chains. The slots of a chain
follow one another, and each of them says whether it is the last. A second
filling may stop early: its slots lie over the first ones, and a chain that is
followed there runs through new slots and old ones.
-/

namespace Mimisbrunnr.Lib.SlotChains

set_option autoImplicit false

variable {α β : Type}

structure Link (α : Type) where
  content : α
  last : Bool
deriving DecidableEq, Repr

def chain : List α → List (Link α)
  | [] => []
  | content :: rest => ⟨content, rest.isEmpty⟩ :: chain rest

def follow : List (Link α) → List α
  | [] => []
  | link :: rest => link.content :: if link.last then [] else follow rest

def Closed (links : List (Link α)) : Prop :=
  ∀ link, links.getLast? = some link → link.last = true

@[simp] theorem length_chain (contents : List α) : (chain contents).length = contents.length := by
  induction contents with
  | nil => rfl
  | cons content rest ih => rw [chain, List.length_cons, List.length_cons, ih]

theorem follow_chain (contents : List α) (more : List (Link α)) (some_content : contents ≠ []) :
    follow (chain contents ++ more) = contents := by
  induction contents with
  | nil => exact absurd rfl some_content
  | cons content rest ih =>
      cases rest with
      | nil => rfl
      | cons next later =>
          have behind := ih (List.cons_ne_nil next later)
          rw [chain, List.cons_append, follow, behind]
          rfl

theorem closed_nil : Closed ([] : List (Link α)) := by
  intro link found
  cases found

theorem closed_append (first second : List (Link α)) (left : Closed first)
    (right : Closed second) : Closed (first ++ second) := by
  intro link found
  rw [List.getLast?_append] at found
  cases last : second.getLast? with
  | none =>
      rw [last] at found
      exact left link found
  | some other =>
      rw [last] at found
      cases found
      exact right _ last

theorem closed_chain (contents : List α) : Closed (chain contents) := by
  induction contents with
  | nil => exact closed_nil
  | cons content rest ih =>
      cases rest with
      | nil =>
          intro link found
          cases found
          rfl
      | cons next later =>
          intro link found
          apply ih link
          rw [chain, chain, List.getLast?_cons_cons] at found
          exact found

theorem closed_drop (links : List (Link α)) (count : Nat) (closed : Closed links) :
    Closed (links.drop count) := by
  intro link found
  rw [List.getLast?_drop] at found
  split at found
  · cases found
  · exact closed link found

theorem closed_rest (link : Link α) (rest : List (Link α)) (closed : Closed (link :: rest))
    (more : link.last = false) : rest ≠ [] ∧ Closed rest := by
  constructor
  · intro none
    subst none
    have ends := closed link rfl
    rw [more] at ends
    cases ends
  · exact closed_drop (link :: rest) 1 closed

def overlay (written old : List β) : List β := written ++ old.drop written.length

theorem get_overlay (written old : List β) (index : Nat) :
    (overlay written old)[index]? =
      if index < written.length then written[index]? else old[index]? := by
  rw [overlay, List.getElem?_append]
  split
  · rfl
  · rw [List.getElem?_drop]
    congr 1
    omega

theorem le_length_overlay (written old : List β) : old.length ≤ (overlay written old).length := by
  rw [overlay, List.length_append, List.length_drop]
  omega

theorem length_overlay_le (written old : List β) (bound : Nat) (new : written.length ≤ bound)
    (before : old.length ≤ bound) : (overlay written old).length ≤ bound := by
  rw [overlay, List.length_append, List.length_drop]
  omega

theorem take_overlay_iff (written old : List β) :
    (overlay written old).take old.length = old ↔ written <+: old ∨ old <+: written := by
  rw [overlay]
  by_cases longer : old.length < written.length
  · rw [List.take_append_of_le_length (Nat.le_of_lt longer)]
    constructor
    · intro same
      exact Or.inr (List.prefix_iff_eq_take.mpr same.symm)
    · intro starts
      cases starts with
      | inl before => exact absurd before.length_le (Nat.not_le.mpr longer)
      | inr before => exact (List.prefix_iff_eq_take.mp before).symm
  · have whole : (written ++ old.drop written.length).length = old.length := by
      rw [List.length_append, List.length_drop]
      omega
    rw [← whole, List.take_length]
    constructor
    · intro same
      exact Or.inl (List.prefix_iff_eq_append.mpr same)
    · intro starts
      cases starts with
      | inl before => exact List.prefix_iff_eq_append.mp before
      | inr before =>
          have same : old = written := before.eq_of_length_le (Nat.le_of_not_lt longer)
          rw [same, List.drop_length, List.append_nil]

theorem closed_overlay (written old : List (Link α)) (new : Closed written) (before : Closed old) :
    Closed (overlay written old) :=
  closed_append written _ new (closed_drop old _ before)

def Laid (holds : Nat → β → Prop) (slot : Nat) (items : List β) : Prop :=
  ∀ index item, items[index]? = some item → holds (slot + index) item

section

variable {holds : Nat → β → Prop}

theorem laid_nil (slot : Nat) : Laid holds slot [] := by
  intro index item found
  cases found

theorem laid_cons (slot : Nat) (item : β) (items : List β) :
    Laid holds slot (item :: items) ↔ holds slot item ∧ Laid holds (slot + 1) items := by
  constructor
  · intro laid
    constructor
    · exact laid 0 item rfl
    · intro index found located
      have here := laid (index + 1) found located
      rwa [show slot + (index + 1) = slot + 1 + index by omega] at here
  · intro laid index found located
    cases index with
    | zero =>
        cases located
        exact laid.1
    | succ index =>
        have here := laid.2 index found located
        rwa [show slot + 1 + index = slot + (index + 1) by omega] at here

theorem laid_append (slot : Nat) (first second : List β) :
    Laid holds slot (first ++ second) ↔
      Laid holds slot first ∧ Laid holds (slot + first.length) second := by
  induction first generalizing slot with
  | nil => exact ⟨fun laid => ⟨laid_nil slot, laid⟩, fun laid => laid.2⟩
  | cons item first ih =>
      rw [List.cons_append, laid_cons, laid_cons, ih, List.length_cons, and_assoc,
        show slot + 1 + first.length = slot + (first.length + 1) by omega]

theorem laid_drop (slot count : Nat) (items : List β) (laid : Laid holds slot items) :
    Laid holds (slot + count) (items.drop count) := by
  intro index item found
  rw [List.getElem?_drop] at found
  have here := laid (count + index) item found
  rwa [← Nat.add_assoc] at here

theorem laid_take (slot count : Nat) (items : List β) (laid : Laid holds slot items) :
    Laid holds slot (items.take count) := by
  intro index item found
  rw [List.getElem?_take] at found
  split at found
  · exact laid index item found
  · cases found

theorem laid_imp (other : Nat → β → Prop) (slot : Nat) (items : List β)
    (laid : Laid holds slot items)
    (same : ∀ index, index < items.length → ∀ item, holds (slot + index) item →
      other (slot + index) item) : Laid other slot items := by
  intro index item found
  exact same index (List.getElem?_eq_some_iff.mp found).1 item (laid index item found)

theorem laid_overlay (slot : Nat) (written old : List β) (new : Laid holds slot written)
    (stayed : ∀ index item, written.length ≤ index → old[index]? = some item →
      holds (slot + index) item) : Laid holds slot (overlay written old) := by
  intro index item found
  rw [get_overlay] at found
  split at found
  · exact new index item found
  · next behind => exact stayed index item (Nat.le_of_not_lt behind) found

end

end Mimisbrunnr.Lib.SlotChains
