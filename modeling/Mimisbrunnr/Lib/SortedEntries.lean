import Mathlib.Data.List.Sort
import Mimisbrunnr.Lib.FiniteMap
import Mimisbrunnr.Lib.SortedSet

/-!
# Finite maps as lists of entries

The entries of a finite map in the order of the keys, and the map of a list of
entries. A map is that of its entries.
-/

namespace Mimisbrunnr.Lib.FiniteMap

set_option autoImplicit false

/-- The order of the keys by an injective rank. -/
@[reducible] def orderBy {K R : Type} [same : DecidableEq K] [LinearOrder R] (rank : K → R)
    (injective : Function.Injective rank) : LinearOrder K :=
  { LinearOrder.lift' rank injective with
    toDecidableEq := same
    compare_eq_compareOfLessAndEq := by
      intro left right
      have usual := (LinearOrder.lift' rank injective).compare_eq_compareOfLessAndEq left right
      rw [usual]
      congr }

variable {K V : Type} [LinearOrder K]

def toSorted (m : FMap K V) : List (K × V) :=
  (SortedSet.ofFinset m.keys).filterMap fun key => (m.lookup key).map fun value => (key, value)

def ofEntries (entries : List (K × V)) : FMap K V :=
  entries.foldl (fun m entry => m.insert entry.1 entry.2) ∅

@[simp] theorem mem_to_sorted (m : FMap K V) (key : K) (value : V) :
    (key, value) ∈ toSorted m ↔ m.lookup key = some value := by
  simp only [toSorted, List.mem_filterMap, SortedSet.mem_of_finset]
  constructor
  · rintro ⟨other, -, found⟩
    obtain ⟨entry, located, same⟩ := Option.map_eq_some_iff.mp found
    cases same
    exact located
  · intro found
    exact ⟨key, mem_of_lookup m key value found, by rw [found]; rfl⟩

theorem keys_to_sorted (m : FMap K V) :
    (toSorted m).map Prod.fst = SortedSet.ofFinset m.keys := by
  rw [toSorted, List.map_filterMap]
  conv_rhs => rw [← List.filterMap_some (l := SortedSet.ofFinset m.keys)]
  apply List.filterMap_congr
  intro key member
  rw [SortedSet.mem_of_finset, Finmap.mem_keys, Finmap.mem_iff] at member
  obtain ⟨value, found⟩ := member
  rw [found]
  rfl

theorem increasing_to_sorted (m : FMap K V) : ((toSorted m).map Prod.fst).Pairwise (· < ·) := by
  rw [keys_to_sorted]
  exact SortedSet.increasing_of_finset m.keys

theorem lookup_foldl_insert (entries : List (K × V))
    (distinct : (entries.map Prod.fst).Nodup) :
    ∀ (m : FMap K V) (key : K),
      (entries.foldl (fun m entry => m.insert entry.1 entry.2) m).lookup key =
        ((entries.find? fun entry => entry.1 = key).map Prod.snd).or (m.lookup key) := by
  induction entries with
  | nil =>
      intro m key
      rfl
  | cons entry entries ih =>
      intro m key
      rw [List.map_cons, List.nodup_cons] at distinct
      rw [List.foldl_cons, ih distinct.2, lookup_insert_eq]
      by_cases same : entry.1 = key
      · have absent : entries.find? (fun other => decide (other.1 = key)) = none := by
          rw [List.find?_eq_none]
          intro other member equal
          apply distinct.1
          rw [same, ← of_decide_eq_true equal]
          exact List.mem_map_of_mem member
        rw [absent, if_pos same.symm, List.find?_cons_of_pos (by simp [same])]
        rfl
      · rw [if_neg (Ne.symm same), List.find?_cons_of_neg (by simp [same])]

theorem lookup_of_entries (entries : List (K × V)) (distinct : (entries.map Prod.fst).Nodup)
    (key : K) :
    (ofEntries entries).lookup key = (entries.find? fun entry => entry.1 = key).map Prod.snd := by
  rw [ofEntries, lookup_foldl_insert entries distinct]
  simp

theorem lookup_of_entries_iff (entries : List (K × V)) (distinct : (entries.map Prod.fst).Nodup)
    (key : K) (value : V) :
    (ofEntries entries).lookup key = some value ↔ (key, value) ∈ entries := by
  rw [lookup_of_entries entries distinct]
  constructor
  · intro found
    obtain ⟨⟨other, content⟩, located, same⟩ := Option.map_eq_some_iff.mp found
    have named : other = key := by simpa using List.find?_some located
    subst named
    subst same
    exact List.mem_of_find?_eq_some located
  · intro member
    cases located : entries.find? fun entry => entry.1 = key with
    | none =>
        rw [List.find?_eq_none] at located
        exact absurd (decide_eq_true rfl) (located _ member)
    | some entry =>
        have named : entry.1 = key := by simpa using List.find?_some located
        have present := List.mem_of_find?_eq_some located
        have same := List.inj_on_of_nodup_map distinct present member named
        rw [same]
        rfl

theorem of_entries_to_sorted (m : FMap K V) : ofEntries (toSorted m) = m := by
  have distinct : ((toSorted m).map Prod.fst).Nodup :=
    (increasing_to_sorted m).imp fun less => ne_of_lt less
  apply Finmap.ext_lookup
  intro key
  apply Option.ext
  intro value
  rw [lookup_of_entries_iff _ distinct, mem_to_sorted]

theorem entries_ext (left right : List (K × V))
    (increasing : (left.map Prod.fst).Pairwise (· < ·))
    (increasing' : (right.map Prod.fst).Pairwise (· < ·))
    (same : ∀ entry, entry ∈ left ↔ entry ∈ right) : left = right := by
  have distinct : (left.map Prod.fst).Nodup := increasing.imp fun less => ne_of_lt less
  have distinct' : (right.map Prod.fst).Nodup := increasing'.imp fun less => ne_of_lt less
  have permutation : left.Perm right :=
    (List.perm_ext_iff_of_nodup distinct.of_map distinct'.of_map).mpr same
  exact permutation.eq_of_pairwise (fun a b _ _ less greater => absurd greater (lt_asymm less))
    (List.pairwise_map.mp increasing) (List.pairwise_map.mp increasing')

theorem to_sorted_of_entries (entries : List (K × V))
    (increasing : (entries.map Prod.fst).Pairwise (· < ·)) :
    toSorted (ofEntries entries) = entries := by
  have distinct : (entries.map Prod.fst).Nodup := increasing.imp fun less => ne_of_lt less
  apply entries_ext _ _ (increasing_to_sorted _) increasing
  intro (key, value)
  rw [mem_to_sorted, lookup_of_entries_iff entries distinct]

theorem of_entries_map_vals {W : Type} (change : V → W) (m : FMap K V) :
    ofEntries ((toSorted m).map fun entry => (entry.1, change entry.2)) = mapVals change m := by
  have keys : ((toSorted m).map fun entry => (entry.1, change entry.2)).map Prod.fst =
      (toSorted m).map Prod.fst := by
    rw [List.map_map]
    rfl
  have distinct : (((toSorted m).map fun entry => (entry.1, change entry.2)).map Prod.fst).Nodup := by
    rw [keys]
    exact (increasing_to_sorted m).imp fun less => ne_of_lt less
  apply Finmap.ext_lookup
  intro key
  apply Option.ext
  intro value
  rw [lookup_of_entries_iff _ distinct, lookup_map_vals, Option.map_eq_some_iff, List.mem_map]
  constructor
  · intro found
    obtain ⟨entry, member, same⟩ := found
    cases same
    exact ⟨entry.2, (mem_to_sorted _ _ _).mp member, rfl⟩
  · intro found
    obtain ⟨old, located, same⟩ := found
    exact ⟨(key, old), (mem_to_sorted _ _ _).mpr located, by rw [same]⟩

/-- The values of a map, sorted by a key they carry themselves, are stored under
the keys of the map. -/
theorem of_entries_sorted_values (m : FMap K V) (key : V → K) (order : V → V → Prop) [DecidableRel order]
    (keyed : ∀ k value, m.lookup k = some value → key value = k) :
    ofEntries ((((toSorted m).map Prod.snd).insertionSort order).map fun value =>
      (key value, value)) = m := by
  have permuted : ((((toSorted m).map Prod.snd).insertionSort order).map fun value =>
      (key value, value)).Perm (toSorted m) := by
    refine ((List.perm_insertionSort order _).map _).trans (List.Perm.of_eq ?_)
    rw [List.map_map]
    refine (List.map_congr_left ?_).trans (List.map_id _)
    rintro ⟨k, value⟩ member
    simp only [Function.comp_apply, id_eq, Prod.mk.injEq, and_true]
    exact keyed k value ((mem_to_sorted m k value).mp member)
  have distinct : ((toSorted m).map Prod.fst).Nodup :=
    (increasing_to_sorted m).imp fun less => ne_of_lt less
  apply Finmap.ext_lookup
  intro k
  apply Option.ext
  intro value
  rw [lookup_of_entries_iff _ ((permuted.map Prod.fst).nodup_iff.mpr distinct),
    permuted.mem_iff, mem_to_sorted]

theorem mem_of_lookup_of_entries (entries : List (K × V)) (key : K) (value : V)
    (found : (ofEntries entries).lookup key = some value) : (key, value) ∈ entries := by
  have folded : ∀ start : FMap K V,
      (entries.foldl (fun m entry => m.insert entry.1 entry.2) start).lookup key = some value →
        start.lookup key = some value ∨ (key, value) ∈ entries := by
    clear found
    induction entries with
    | nil =>
        intro start located
        exact Or.inl located
    | cons entry rest ih =>
        intro start located
        cases ih _ located with
        | inl before =>
            rw [lookup_insert_eq] at before
            split at before
            · next same =>
                cases before
                rw [same]
                exact Or.inr List.mem_cons_self
            · exact Or.inl before
        | inr later => exact Or.inr (List.mem_cons_of_mem entry later)
  cases folded ∅ found with
  | inl empty =>
      rw [Finmap.lookup_empty] at empty
      cases empty
  | inr listed => exact listed

theorem mem_of_entries_iff (entries : List (K × V)) (key : K) :
    key ∈ ofEntries entries ↔ ∃ value, (key, value) ∈ entries := by
  have folded : ∀ start : FMap K V,
      key ∈ entries.foldl (fun m entry => m.insert entry.1 entry.2) start ↔
        key ∈ start ∨ ∃ value, (key, value) ∈ entries := by
    induction entries with
    | nil =>
        intro start
        simp
    | cons entry rest ih =>
        intro start
        rw [List.foldl_cons, ih, Finmap.mem_insert]
        simp only [List.mem_cons, Prod.ext_iff, exists_or]
        constructor
        · intro cases_
          obtain (same | before) | later := cases_
          · exact Or.inr (Or.inl ⟨entry.2, same, rfl⟩)
          · exact Or.inl before
          · exact Or.inr (Or.inr later)
        · intro cases_
          obtain before | ⟨-, same, -⟩ | later := cases_
          · exact Or.inl (Or.inr before)
          · exact Or.inl (Or.inl same)
          · exact Or.inr later
  rw [ofEntries, folded]
  simp [Finmap.notMem_empty]

theorem of_entries_covering (entries : List (K × V)) (m : FMap K V)
    (sound : ∀ entry ∈ entries, m.lookup entry.1 = some entry.2)
    (complete : ∀ key value, m.lookup key = some value → (key, value) ∈ entries) :
    ofEntries entries = m := by
  have folded : ∀ start : FMap K V, (∀ key value, start.lookup key = some value →
      m.lookup key = some value) → ∀ key,
      (entries.foldl (fun m entry => m.insert entry.1 entry.2) start).lookup key =
        if key ∈ entries.map Prod.fst then m.lookup key else start.lookup key := by
    clear complete
    induction entries with
    | nil =>
        intro start _ key
        rfl
    | cons entry rest ih =>
        intro start inside key
        have here := sound entry List.mem_cons_self
        rw [List.foldl_cons, ih (fun other member => sound other (List.mem_cons_of_mem _ member)) _
          (by
            intro other value found
            rw [lookup_insert_eq] at found
            split at found
            · next same =>
                rw [same, here]
                exact found
            · exact inside other value found)]
        rw [lookup_insert_eq]
        by_cases later : key ∈ rest.map Prod.fst
        · have inside : key ∈ (entry :: rest).map Prod.fst := List.mem_cons_of_mem _ later
          rw [if_pos later, if_pos inside]
        · rw [if_neg later]
          by_cases same : key = entry.1
          · have inside : key ∈ (entry :: rest).map Prod.fst := by
              rw [same]
              exact List.mem_cons_self
            rw [if_pos same, if_pos inside, same, here]
          · have outside : key ∉ (entry :: rest).map Prod.fst := by
              rw [List.map_cons, List.mem_cons, not_or]
              exact ⟨same, later⟩
            rw [if_neg same, if_neg outside]
  apply Finmap.ext_lookup
  intro key
  rw [ofEntries, folded ∅ (by simp) key]
  split
  · rfl
  · next absent =>
      cases found : m.lookup key with
      | none => rfl
      | some value =>
          exact absurd (List.mem_map_of_mem (complete key value found)) absent

end Mimisbrunnr.Lib.FiniteMap
