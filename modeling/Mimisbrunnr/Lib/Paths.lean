import Mathlib.Data.List.Basic
import Mathlib.Order.Notation

/-!
# Paths

A path is cut at a separator. Empty parts and single dots name nothing; a part of
two dots takes back the name before it. Joining a relative path without such a
part to any root adds its names behind those of the root.
-/

namespace Mimisbrunnr.Lib.Paths

set_option autoImplicit false

section

variable {α : Type} [DecidableEq α] (separator dot : α)

def isAbsolute (path : List α) : Bool := path.head? = some separator

/-- A path behind a root: an absolute path takes the root's place. -/
def join (root path : List α) : List α :=
  if isAbsolute separator path then path
  else if root = [] ∨ root.getLast? = some separator then root ++ path
  else root ++ separator :: path

def names (path : List α) : List (List α) :=
  (path.splitOn separator).filter fun part => part ≠ [] ∧ part ≠ [dot]

def settleName (settled : List (List α)) (name : List α) : List (List α) :=
  if name = [dot, dot] then settled.dropLast else settled ++ [name]

def settle (parts : List (List α)) : List (List α) := parts.foldl (settleName dot) []

def normal (path : List α) : List (List α) := settle dot (names separator dot path)

/-- The path ends with a name, not with a separator or with dots. -/
def endsWithName (path : List α) : Bool :=
  match (path.splitOn separator).getLast? with
  | some last => last ≠ [] ∧ last ≠ [dot] ∧ last ≠ [dot, dot]
  | none => false

theorem names_of_ends_with_name (path : List α) (named : endsWithName separator dot path = true) :
    names separator dot path ≠ [] := by
  rw [endsWithName] at named
  split at named
  · next last found =>
      have member := List.mem_of_getLast? found
      have plain := of_decide_eq_true named
      apply List.ne_nil_of_mem
      exact List.mem_filter.mpr ⟨member, decide_eq_true ⟨plain.1, plain.2.1⟩⟩
  · cases named

theorem names_join (root path : List α) (relative : isAbsolute separator path = false) :
    names separator dot (join separator root path) =
      names separator dot root ++ names separator dot path := by
  rw [join, relative, if_neg Bool.false_ne_true]
  split
  · next ends =>
      cases ends with
      | inl empty =>
          rw [empty, List.nil_append]
          simp [names]
      | inr last =>
          obtain ⟨front, whole⟩ := List.getLast?_eq_some_iff.mp last
          rw [whole, List.append_assoc, List.singleton_append, names, names, names,
            List.splitOn_append_cons_self, List.splitOn_append_cons_self, List.filter_append,
            List.filter_append]
          simp
  · rw [names, List.splitOn_append_cons_self, List.filter_append]
    rfl

theorem settle_append (front back : List (List α)) (down : [dot, dot] ∉ back) :
    settle dot (front ++ back) = settle dot front ++ back := by
  rw [settle, List.foldl_append]
  change back.foldl (settleName dot) (settle dot front) = _
  generalize settle dot front = settled
  induction back generalizing settled with
  | nil => exact (List.append_nil settled).symm
  | cons name back ih =>
      rw [List.mem_cons, not_or] at down
      rw [List.foldl_cons, settleName, if_neg (Ne.symm down.1), ih down.2, List.append_assoc]
      rfl

theorem normal_join (root path : List α) (relative : isAbsolute separator path = false)
    (down : [dot, dot] ∉ path.splitOn separator) :
    normal separator dot (join separator root path) =
      normal separator dot root ++ names separator dot path := by
  rw [normal, names_join separator dot root path relative, settle_append]
  · rfl
  · intro member
    exact down (List.mem_filter.mp member).1

theorem absolute_join (root path : List α) (relative : isAbsolute separator path = false) :
    isAbsolute separator (join separator root path) = isAbsolute separator root := by
  rw [join, relative, if_neg Bool.false_ne_true]
  cases root with
  | nil =>
      rw [if_pos (Or.inl rfl), List.nil_append, relative]
      rfl
  | cons first rest =>
      split
      · rfl
      · rfl

theorem separator_not_in_part (path : List α) :
    ∀ part ∈ path.splitOn separator, separator ∉ part := by
  induction path with
  | nil =>
      intro part member
      rw [List.splitOn_nil, List.mem_singleton] at member
      rw [member]
      exact List.not_mem_nil
  | cons first rest ih =>
      intro part member
      rw [List.splitOn_cons_eq_if_modifyHead] at member
      split at member
      · rcases List.mem_cons.mp member with rfl | later
        · exact List.not_mem_nil
        · exact ih part later
      · next other =>
          cases parts : rest.splitOn separator with
          | nil => exact absurd parts (List.splitOn_ne_nil separator rest)
          | cons head tail =>
              rw [parts] at ih member
              rcases List.mem_cons.mp member with rfl | later
              · intro inside
                rcases List.mem_cons.mp inside with same | further
                · exact other (by rw [same]; exact BEq.rfl)
                · exact ih head List.mem_cons_self further
              · exact ih part (List.mem_cons_of_mem _ later)

omit [DecidableEq α] in
theorem mem_intercalate (parts : List (List α)) (member : α)
    (inside : member ∈ [separator].intercalate parts) :
    member = separator ∨ ∃ part ∈ parts, member ∈ part := by
  induction parts with
  | nil => exact absurd inside List.not_mem_nil
  | cons part rest ih =>
      by_cases last : rest = []
      · rw [last, List.intercalate_singleton] at inside
        exact Or.inr ⟨part, List.mem_cons_self, inside⟩
      · rw [List.intercalate_cons_of_ne_nil last, List.append_assoc, List.mem_append,
          List.mem_append, List.mem_singleton] at inside
        rcases inside with here | between | further
        · exact Or.inr ⟨part, List.mem_cons_self, here⟩
        · exact Or.inl between
        · rcases ih further with between | ⟨other, listed, there⟩
          · exact Or.inl between
          · exact Or.inr ⟨other, List.mem_cons_of_mem _ listed, there⟩

def IsName (part : List α) : Prop :=
  part ≠ [] ∧ separator ∉ part ∧ part ≠ [dot] ∧ part ≠ [dot, dot]

section

variable (parts : List (List α)) (some_name : parts ≠ [])
  (all : ∀ part ∈ parts, IsName separator dot part)

include some_name all

theorem split_names : ([separator].intercalate parts).splitOn separator = parts :=
  List.splitOn_intercalate separator (fun part member => (all part member).2.1) some_name

theorem normal_intercalate : normal separator dot ([separator].intercalate parts) = parts := by
  have kept : names separator dot ([separator].intercalate parts) = parts := by
    rw [names, split_names separator dot parts some_name all]
    apply List.filter_eq_self.mpr
    intro part member
    exact decide_eq_true ⟨(all part member).1, (all part member).2.2.1⟩
  rw [normal, kept]
  have settled := settle_append dot [] parts fun member => (all _ member).2.2.2 rfl
  exact settled

theorem ends_with_name_intercalate :
    endsWithName separator dot ([separator].intercalate parts) = true := by
  rw [endsWithName, split_names separator dot parts some_name all]
  cases last : parts.getLast? with
  | none => exact absurd (List.getLast?_eq_none_iff.mp last) some_name
  | some part =>
      obtain ⟨present, -, single, double⟩ := all part (List.mem_of_getLast? last)
      exact decide_eq_true ⟨present, single, double⟩

end

end

end Mimisbrunnr.Lib.Paths
