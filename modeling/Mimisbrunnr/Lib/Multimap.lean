import Mathlib.Data.List.Nodup
import Mimisbrunnr.Lib.FiniteMap

/-!
# Inverted indices

A map from keys to lists of values, to which a value is linked under several
keys and from which it is dropped again. Only how often a list holds a value is
of interest.
-/

namespace Mimisbrunnr.Lib.Multimap

set_option autoImplicit false

open Mimisbrunnr.Lib.FiniteMap

universe u v

variable {K : Type u} {V : Type v} [DecidableEq K]

def held (m : FMap K (List V)) (key : K) : List V := (m.lookup key).getD []

def push (m : FMap K (List V)) (value : V) (key : K) : FMap K (List V) :=
  m.insert key (held m key ++ [value])

def pushAll (m : FMap K (List V)) (value : V) (keys : List K) : FMap K (List V) :=
  keys.foldl (fun m key => push m value key) m

def pushGroups (m : FMap K (List V)) (groups : List (V × List K)) : FMap K (List V) :=
  groups.foldl (fun m group => pushAll m group.1 group.2) m

@[simp] theorem held_empty (key : K) : held (∅ : FMap K (List V)) key = [] := rfl

theorem held_push (m : FMap K (List V)) (value : V) (key other : K) :
    held (push m value key) other =
      if other = key then held m other ++ [value] else held m other := by
  rw [push, held, lookup_insert_eq]
  by_cases same : other = key
  · subst same
    rw [if_pos rfl, if_pos rfl]
    rfl
  · rw [if_neg same, if_neg same]
    rfl

variable [DecidableEq V]

/-- Drops the value from the list of a key, and the key with an empty list. -/
def drop (m : FMap K (List V)) (value : V) (key : K) : FMap K (List V) :=
  match m.lookup key with
  | none => m
  | some list =>
      let list := list.filter fun other => other ≠ value
      if list.isEmpty then m.erase key else m.insert key list

def dropAll (m : FMap K (List V)) (value : V) (keys : List K) : FMap K (List V) :=
  keys.foldl (fun m key => drop m value key) m

theorem held_drop (m : FMap K (List V)) (value : V) (key other : K) :
    held (drop m value key) other =
      if other = key then (held m other).filter (fun linked => linked ≠ value)
      else held m other := by
  by_cases same : other = key
  · subst same
    rw [if_pos rfl, drop, held, held]
    cases found : m.lookup other with
    | none =>
        show (m.lookup other).getD [] = _
        rw [found]
        rfl
    | some list =>
        simp only [Option.getD_some]
        split
        · next empty =>
            rw [Finmap.lookup_erase]
            exact (List.isEmpty_iff.mp empty).symm
        · rw [Finmap.lookup_insert]
          rfl
  · rw [if_neg same, drop, held, held]
    split
    · rfl
    · dsimp only
      split
      · rw [Finmap.lookup_erase_ne same]
      · rw [Finmap.lookup_insert_of_ne _ same]

theorem count_push_all (keys : List K) (m : FMap K (List V)) (value linked : V) (key : K) :
    (held (pushAll m value keys) key).count linked =
      (held m key).count linked + if linked = value then keys.count key else 0 := by
  induction keys generalizing m with
  | nil =>
      rw [List.count_nil, ite_self, Nat.add_zero]
      rfl
  | cons first keys ih =>
      have peeled : pushAll m value (first :: keys) = pushAll (push m value first) value keys := rfl
      rw [peeled, ih, held_push]
      by_cases here : key = first
      · subst here
        rw [if_pos rfl, List.count_append, List.count_cons_self, List.count_singleton]
        by_cases same : linked = value
        · subst same
          simp only [beq_self_eq_true, if_true]
          omega
        · have apart : ¬ (value == linked) = true := by simpa using fun equal => same equal.symm
          rw [if_neg apart, if_neg same, if_neg same]
      · rw [if_neg here, List.count_cons_of_ne fun equal => here equal.symm]

theorem count_drop_all (keys : List K) (m : FMap K (List V)) (value linked : V) (key : K) :
    (held (dropAll m value keys) key).count linked =
      if linked = value ∧ key ∈ keys then 0 else (held m key).count linked := by
  induction keys generalizing m with
  | nil =>
      rw [if_neg fun both => List.not_mem_nil both.2]
      rfl
  | cons first keys ih =>
      have peeled : dropAll m value (first :: keys) = dropAll (drop m value first) value keys := rfl
      rw [peeled, ih, held_drop]
      by_cases here : key = first
      · subst here
        rw [if_pos rfl]
        by_cases same : linked = value
        · subst same
          rw [if_pos (And.intro rfl List.mem_cons_self)]
          split
          · rfl
          · rw [List.count_eq_zero]
            simp
        · rw [if_neg fun both => same both.1, if_neg fun both => same both.1,
            List.count_filter (by simpa using same)]
      · rw [if_neg here]
        simp only [List.mem_cons, here, false_or]

theorem count_push_groups_absent (groups : List (V × List K)) (m : FMap K (List V)) (linked : V)
    (key : K) (absent : linked ∉ groups.map Prod.fst) :
    (held (pushGroups m groups) key).count linked = (held m key).count linked := by
  induction groups generalizing m with
  | nil => rfl
  | cons group groups ih =>
      rw [List.map_cons, List.mem_cons, not_or] at absent
      have peeled : pushGroups m (group :: groups) =
          pushGroups (pushAll m group.1 group.2) groups := rfl
      rw [peeled, ih _ absent.2, count_push_all, if_neg absent.1, Nat.add_zero]

/-- Where every value has one group, it is linked under the keys of its group. -/
theorem count_push_groups (groups : List (V × List K)) (m : FMap K (List V))
    (distinct : (groups.map Prod.fst).Nodup) (linked : V) (keys : List K)
    (member : (linked, keys) ∈ groups) (key : K) :
    (held (pushGroups m groups) key).count linked =
      (held m key).count linked + keys.count key := by
  induction groups generalizing m with
  | nil => exact absurd member List.not_mem_nil
  | cons group groups ih =>
      rw [List.map_cons, List.nodup_cons] at distinct
      have peeled : pushGroups m (group :: groups) =
          pushGroups (pushAll m group.1 group.2) groups := rfl
      rw [peeled]
      rcases List.mem_cons.mp member with here | later
      · subst here
        rw [count_push_groups_absent groups _ linked key distinct.1, count_push_all, if_pos rfl]
      · have different : linked ≠ group.1 := by
          intro same
          apply distinct.1
          rw [← same]
          exact List.mem_map_of_mem later
        rw [ih _ distinct.2 later, count_push_all, if_neg different, Nat.add_zero]

end Mimisbrunnr.Lib.Multimap
