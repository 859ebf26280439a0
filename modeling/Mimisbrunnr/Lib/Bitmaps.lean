import Mimisbrunnr.Lib.FiniteMap

/-!
# Maps from keys to sets of numbers

Inverted indices: each key carries a set of numbers, a key whose set becomes
empty is dropped, and an absent key reads as the empty set. No key carries the
empty set, so that two maps with the same members are equal.
-/

namespace Mimisbrunnr.Lib.Bitmaps

set_option autoImplicit false

open Mimisbrunnr.Lib.FiniteMap

universe u

variable {K : Type u} [DecidableEq K]

structure BitmapMap (K : Type u) [DecidableEq K] where
  sets : FMap K (Finset Nat)
  occupied : ∀ key set, sets.lookup key = some set → set ≠ ∅

def empty : BitmapMap K where
  sets := ∅
  occupied := by
    intro key set found
    simp at found

def members (m : BitmapMap K) (key : K) : Finset Nat := (m.sets.lookup key).getD ∅

def insert (m : BitmapMap K) (key : K) (entry : Nat) : BitmapMap K where
  sets := m.sets.insert key (Insert.insert entry (members m key))
  occupied := by
    intro other set found
    rw [lookup_insert_eq] at found
    split at found
    · cases found
      exact Finset.insert_ne_empty entry (members m key)
    · exact m.occupied other set found

/-- The map without `entry` under `key`, and without `key` when that was all. -/
def shrink (m : FMap K (Finset Nat)) (key : K) (entry : Nat) : FMap K (Finset Nat) :=
  match m.lookup key with
  | none => m
  | some set =>
      if set.erase entry = ∅ then m.erase key
      else m.insert key (set.erase entry)

theorem lookup_shrink (m : FMap K (Finset Nat)) (key other : K) (entry : Nat) :
    (shrink m key entry).lookup other =
      if other = key then
        (m.lookup key).bind fun set =>
          if set.erase entry = ∅ then none else some (set.erase entry)
      else m.lookup other := by
  unfold shrink
  by_cases same : other = key
  · subst same
    rw [if_pos rfl]
    split
    · next missing => simp [missing]
    · next set found =>
        by_cases emptied : set.erase entry = ∅
        · simp [found, emptied]
        · simp [found, emptied]
  · rw [if_neg same]
    split
    · rfl
    · next set found =>
        by_cases emptied : set.erase entry = ∅
        · simp [emptied, same]
        · simp [emptied, same]

def remove (m : BitmapMap K) (key : K) (entry : Nat) : BitmapMap K where
  sets := shrink m.sets key entry
  occupied := by
    intro other set found
    rw [lookup_shrink] at found
    split at found
    · have split := Option.bind_eq_some_iff.mp found
      cases split with
      | intro old facts =>
          have kept := facts.2
          split at kept
          · cases kept
          · next nonempty =>
              cases kept
              exact nonempty
    · exact m.occupied other set found

@[simp] theorem members_empty (key : K) : members (empty : BitmapMap K) key = ∅ := by
  simp [empty, members]

@[simp] theorem mem_insert (m : BitmapMap K) (key other : K) (entry x : Nat) :
    x ∈ members (insert m key entry) other ↔
      (other = key ∧ x = entry) ∨ x ∈ members m other := by
  unfold insert
  by_cases same : other = key
  · subst same
    simp [members]
  · simp [members, same]

theorem members_remove (m : BitmapMap K) (key other : K) (entry : Nat) :
    members (remove m key entry) other =
      if other = key then (members m key).erase entry else members m other := by
  unfold remove members
  rw [lookup_shrink]
  by_cases same : other = key
  · subst same
    simp only [if_true]
    cases m.sets.lookup other with
    | none => simp
    | some set =>
        by_cases emptied : set.erase entry = ∅
        · simp [emptied]
        · simp [emptied]
  · simp [same]

@[simp] theorem mem_remove (m : BitmapMap K) (key other : K) (entry x : Nat) :
    x ∈ members (remove m key entry) other ↔
      ¬ (other = key ∧ x = entry) ∧ x ∈ members m other := by
  rw [members_remove]
  by_cases same : other = key
  · subst same
    simp
  · simp [same]

theorem ext_members (left right : BitmapMap K)
    (same : ∀ key, members left key = members right key) : left = right := by
  have sets : left.sets = right.sets := by
    apply Finmap.ext_lookup
    intro key
    have equal := same key
    unfold members at equal
    have leftOccupied := left.occupied key
    have rightOccupied := right.occupied key
    cases leftFound : left.sets.lookup key with
    | none =>
        cases rightFound : right.sets.lookup key with
        | none => rfl
        | some set =>
            rw [leftFound, rightFound] at equal
            exact absurd equal.symm (rightOccupied set rightFound)
    | some set =>
        cases rightFound : right.sets.lookup key with
        | none =>
            rw [leftFound, rightFound] at equal
            exact absurd equal (leftOccupied set leftFound)
        | some other =>
            rw [leftFound, rightFound] at equal
            exact congrArg some equal
  cases left
  cases right
  cases sets
  rfl

/-- The set under a key replaced; an empty one drops the key. -/
def replace (m : BitmapMap K) (key : K) (set : Finset Nat) : BitmapMap K where
  sets := if set = ∅ then m.sets.erase key else m.sets.insert key set
  occupied := by
    intro other found located
    split at located
    · rw [lookup_erase_eq] at located
      split at located
      · cases located
      · exact m.occupied other found located
    · next nonempty =>
        rw [lookup_insert_eq] at located
        split at located
        · cases located
          exact nonempty
        · exact m.occupied other found located

def ofEntries (entries : List (K × Finset Nat)) : BitmapMap K :=
  entries.foldl (fun m entry => replace m entry.1 entry.2) empty

theorem members_replace (m : BitmapMap K) (key other : K) (set : Finset Nat) :
    members (replace m key set) other = if other = key then set else members m other := by
  unfold members replace
  by_cases emptied : set = ∅
  · simp only [emptied, if_true, lookup_erase_eq]
    split
    · rfl
    · rfl
  · simp only [emptied, if_false, lookup_insert_eq]
    split
    · rfl
    · rfl

theorem members_foldl_replace (entries : List (K × Finset Nat))
    (distinct : (entries.map Prod.fst).Nodup) :
    ∀ (m : BitmapMap K) (key : K),
      members (entries.foldl (fun m entry => replace m entry.1 entry.2) m) key =
        ((entries.find? fun entry => entry.1 = key).map Prod.snd).getD (members m key) := by
  induction entries with
  | nil =>
      intro m key
      rfl
  | cons entry entries ih =>
      intro m key
      rw [List.map_cons, List.nodup_cons] at distinct
      rw [List.foldl_cons, ih distinct.2, members_replace]
      by_cases same : entry.1 = key
      · have absent : entries.find? (fun other => decide (other.1 = key)) = none := by
          rw [List.find?_eq_none]
          intro other member equal
          apply distinct.1
          rw [same, ← of_decide_eq_true equal]
          exact List.mem_map_of_mem member
        rw [absent, if_pos same.symm, List.find?_cons_of_pos (by simp [same])]
        rfl
      · rw [if_neg (Ne.symm same), List.find?_cons_of_neg (by simp [same])]

theorem members_of_entries (entries : List (K × Finset Nat))
    (distinct : (entries.map Prod.fst).Nodup) (entry : K × Finset Nat) (member : entry ∈ entries) :
    members (ofEntries entries) entry.1 = entry.2 := by
  rw [ofEntries, members_foldl_replace entries distinct]
  cases located : entries.find? fun other => other.1 = entry.1 with
  | none =>
      rw [List.find?_eq_none] at located
      exact absurd (decide_eq_true rfl) (located _ member)
  | some other =>
      have named : other.1 = entry.1 := by simpa using List.find?_some located
      have same := List.inj_on_of_nodup_map distinct (List.mem_of_find?_eq_some located) member named
      rw [same]
      rfl

theorem of_entries_zip (keys : List K) (distinct : keys.Nodup) (left right : List (Finset Nat))
    (leftLength : left.length = keys.length) (rightLength : right.length = keys.length)
    (same : ofEntries (keys.zip left) = ofEntries (keys.zip right)) : left = right := by
  have named (sets : List (Finset Nat)) (enough : sets.length = keys.length) :
      (keys.zip sets).map Prod.fst = keys := List.map_fst_zip (Nat.le_of_eq enough.symm)
  apply List.ext_getElem (leftLength.trans rightLength.symm)
  intro index inLeft inRight
  have inKeys : index < keys.length := leftLength ▸ inLeft
  have leftMember : (keys[index], left[index]) ∈ keys.zip left :=
    List.mem_iff_getElem.mpr ⟨index, by rw [List.length_zip]; omega, List.getElem_zip⟩
  have rightMember : (keys[index], right[index]) ∈ keys.zip right :=
    List.mem_iff_getElem.mpr ⟨index, by rw [List.length_zip]; omega, List.getElem_zip⟩
  have first := members_of_entries _ (by rw [named left leftLength]; exact distinct) _ leftMember
  have second := members_of_entries _ (by rw [named right rightLength]; exact distinct) _ rightMember
  rw [same] at first
  exact first.symm.trans second

theorem of_entries_listed (m : BitmapMap K) (entries : List (K × Finset Nat))
    (distinct : (entries.map Prod.fst).Nodup)
    (listed : ∀ key set, (key, set) ∈ entries ↔ m.sets.lookup key = some set) :
    ofEntries entries = m := by
  apply ext_members
  intro key
  rw [ofEntries, members_foldl_replace entries distinct, members_empty]
  unfold members
  cases located : entries.find? fun entry => entry.1 = key with
  | none =>
      cases found : m.sets.lookup key with
      | none => rfl
      | some set =>
          have present := (listed key set).mpr found
          rw [List.find?_eq_none] at located
          exact absurd (decide_eq_true rfl) (located _ present)
  | some entry =>
      have named : entry.1 = key := by simpa using List.find?_some located
      have found := (listed entry.1 entry.2).mp (List.mem_of_find?_eq_some located)
      rw [← named, found]
      rfl

theorem remove_absent (m : BitmapMap K) (key : K) (entry : Nat) (absent : entry ∉ members m key) :
    remove m key entry = m := by
  apply ext_members
  intro other
  rw [members_remove]
  by_cases same : other = key
  · subst same
    simp [absent]
  · simp [same]

end Mimisbrunnr.Lib.Bitmaps
