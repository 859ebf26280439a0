import Mathlib.Data.Finmap

/-!
# Finite maps

Hash maps and ordered maps are Mathlib's finite maps with a constant value
type: two maps with the same lookups are equal, so that equality of states
means equality of contents. This file adds the lookup equations in the form
the proofs rewrite with, in-place update of a present entry, and a map over
all values.
-/

namespace Mimisbrunnr.Lib.FiniteMap

set_option autoImplicit false

universe u v w

variable {K : Type u} {V : Type v} {W : Type w} [DecidableEq K]

abbrev FMap (K : Type u) (V : Type v) := Finmap fun _ : K => V

theorem lookup_insert_eq (m : FMap K V) (k key : K) (value : V) :
    (m.insert key value).lookup k = if k = key then some value else m.lookup k := by
  by_cases same : k = key
  · subst same
    simp
  · rw [if_neg same, Finmap.lookup_insert_of_ne m same]

theorem lookup_erase_eq (m : FMap K V) (k key : K) :
    (m.erase key).lookup k = if k = key then none else m.lookup k := by
  by_cases same : k = key
  · subst same
    simp
  · rw [if_neg same, Finmap.lookup_erase_ne same]

theorem mem_of_lookup (m : FMap K V) (k : K) (value : V) (found : m.lookup k = some value) :
    k ∈ m.keys := by
  rw [Finmap.mem_keys, Finmap.mem_iff]
  exact ⟨value, found⟩

/-- In-place change of the value under `key`, if there is one. -/
def update (m : FMap K V) (key : K) (change : V → V) : FMap K V :=
  match m.lookup key with
  | some value => m.insert key (change value)
  | none => m

@[simp] theorem lookup_update (m : FMap K V) (k key : K) (change : V → V) :
    (update m key change).lookup k =
      if k = key then (m.lookup k).map change else m.lookup k := by
  unfold update
  split
  · next value found =>
      rw [lookup_insert_eq]
      by_cases same : k = key
      · subst same
        simp [found]
      · simp [same]
  · next missing =>
      by_cases same : k = key
      · subst same
        simp [missing]
      · simp [same]

/-- The same keys with every value changed. -/
def mapVals (change : V → W) (m : FMap K V) : FMap K W where
  entries := m.entries.map fun entry => ⟨entry.1, change entry.2⟩
  nodupKeys := by
    rw [← Multiset.nodup_keys, Multiset.keys, Multiset.map_map]
    exact Multiset.nodup_keys.mpr m.nodupKeys

@[simp] theorem lookup_map_vals (change : V → W) (m : FMap K V) (k : K) :
    (mapVals change m).lookup k = (m.lookup k).map change := by
  rcases found : m.lookup k with _ | value
  · rw [Option.map_none, Finmap.lookup_eq_none]
    intro present
    obtain ⟨image, located⟩ := Finmap.mem_iff.mp present
    obtain ⟨⟨key, old⟩, member, same⟩ :=
      Multiset.mem_map.mp (Finmap.lookup_eq_some_iff.mp located)
    simp only [Sigma.mk.injEq] at same
    obtain ⟨rfl, -⟩ := same
    have hit : m.lookup key = some old := Finmap.lookup_eq_some_iff.mpr member
    rw [found] at hit
    cases hit
  · rw [Option.map_some]
    have member := Finmap.lookup_eq_some_iff.mp found
    exact Finmap.lookup_eq_some_iff.mpr (Multiset.mem_map.mpr ⟨⟨k, value⟩, member, rfl⟩)

end Mimisbrunnr.Lib.FiniteMap
