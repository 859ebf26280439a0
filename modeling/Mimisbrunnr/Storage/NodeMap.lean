import Mimisbrunnr.Storage.BtreeRoundTrip
import Mimisbrunnr.Storage.LoadedNode

/-!
# A node is a finite map

What a node holds under a key is what the last of the rows of this key says, the
rows taken from the oldest run to the end of the journal. A stable sort does not
change which row is the last, so the merge finds the same value as the walk from
the newest entry back. The k-way merge of the layers may be any merge that keeps
the order in each of them.
-/

namespace Mimisbrunnr.Storage.LoadedNode

set_option autoImplicit false

open Mimisbrunnr.Lib
open Mimisbrunnr.Lib.FiniteMap

variable {κ ν : Type} [LinearOrder κ]

def answerOf (rows : List (MergeRow κ ν)) (key : κ) : Option (Option ν) :=
  ((rows.filter fun row => row.key = key).getLast?).map MergeRow.value

theorem answer_append (left right : List (MergeRow κ ν)) (key : κ) :
    answerOf (left ++ right) key = (answerOf right key).or (answerOf left key) := by
  rw [answerOf, List.filter_append, List.getLast?_append, answerOf, answerOf]
  cases (right.filter fun row => row.key = key).getLast? with
  | none => rfl
  | some row => rfl

theorem answer_single (row : MergeRow κ ν) (key : κ) :
    answerOf [row] key = if row.key = key then some row.value else none := by
  unfold answerOf
  by_cases same : row.key = key
  · rw [List.filter_cons_of_pos (by simp [same]), if_pos same]
    rfl
  · rw [List.filter_cons_of_neg (by simp [same]), if_neg same]
    rfl

theorem answer_entry (rows : List (MergeRow κ ν)) (entry : JournalEntry κ ν) (layer : Nat)
    (key : κ) :
    answerOf (rows ++ [⟨entry.op.key, layer, entry.op.value?, entry.lsn⟩]) key =
      if entry.op.key = key then some entry.op.value? else answerOf rows key := by
  rw [answer_append, answer_single]
  dsimp only
  by_cases same : entry.op.key = key
  · rw [if_pos same, if_pos same]
    rfl
  · rw [if_neg same, if_neg same]
    rfl

private theorem answer_none (rows : List (MergeRow κ ν)) (key : κ)
    (absent : ∀ row ∈ rows, row.key ≠ key) : answerOf rows key = none := by
  have none : (rows.filter fun row => row.key = key) = [] := by
    rw [List.filter_eq_nil_iff]
    intro row member same
    exact absent row member (of_decide_eq_true same)
  rw [answerOf, none]
  rfl

private theorem newest_rows_key (rows : List (MergeRow κ ν)) :
    ∀ entry ∈ newestRows rows, ∃ row ∈ rows, row.key = entry.1 := by
  fun_induction newestRows rows with
  | case1 =>
      intro entry member
      cases member
  | case2 row =>
      intro entry member
      obtain ⟨value, -, same⟩ := List.mem_map.mp member
      rw [← same]
      exact ⟨row, List.mem_singleton_self row, rfl⟩
  | case3 row next rest same ih =>
      intro entry member
      obtain ⟨found, present, key⟩ := ih entry member
      exact ⟨found, List.mem_cons_of_mem _ present, key⟩
  | case4 row next rest other ih =>
      intro entry member
      cases List.mem_append.mp member with
      | inl here =>
          obtain ⟨value, -, same⟩ := List.mem_map.mp here
          rw [← same]
          exact ⟨row, List.mem_cons_self, rfl⟩
      | inr later =>
          obtain ⟨found, present, key⟩ := ih entry later
          exact ⟨found, List.mem_cons_of_mem _ present, key⟩

theorem key_lt_of_sorted (row next : MergeRow κ ν) (rest : List (MergeRow κ ν))
    (sorted : (row :: next :: rest).Pairwise fun left right => left.key ≤ right.key)
    (other : next.key ≠ row.key) : ∀ later ∈ next :: rest, row.key < later.key := by
  rw [List.pairwise_cons, List.pairwise_cons] at sorted
  have first : row.key < next.key :=
    lt_of_le_of_ne (sorted.1 next List.mem_cons_self) (Ne.symm other)
  intro later member
  cases List.mem_cons.mp member with
  | inl here =>
      rw [here]
      exact first
  | inr behind => exact lt_of_lt_of_le first (sorted.2.1 later behind)

private theorem newest_rows_increasing (rows : List (MergeRow κ ν))
    (sorted : rows.Pairwise fun left right => left.key ≤ right.key) :
    ((newestRows rows).map Prod.fst).Pairwise (· < ·) := by
  have single (row : MergeRow κ ν) :
      ((row.value.toList.map fun value => (row.key, value)).map Prod.fst).Pairwise (· < ·) := by
    cases row.value with
    | none => exact List.Pairwise.nil
    | some value => exact List.pairwise_singleton _ _
  fun_induction newestRows rows with
  | case1 => exact List.Pairwise.nil
  | case2 row => exact single row
  | case3 row next rest same ih => exact ih (List.pairwise_cons.mp sorted).2
  | case4 row next rest other ih =>
      rw [List.map_append, List.pairwise_append]
      refine ⟨single row, ih (List.pairwise_cons.mp sorted).2, ?_⟩
      intro key here larger later
      obtain ⟨entry, member, rfl⟩ := List.mem_map.mp later
      obtain ⟨found, present, found_key⟩ := newest_rows_key _ entry member
      have above := key_lt_of_sorted row next rest sorted other found present
      obtain ⟨pair, listed, rfl⟩ := List.mem_map.mp here
      obtain ⟨value, -, rfl⟩ := List.mem_map.mp listed
      rw [← found_key]
      exact above

theorem mem_newest_rows (rows : List (MergeRow κ ν))
    (sorted : rows.Pairwise fun left right => left.key ≤ right.key) (key : κ) (value : ν) :
    (key, value) ∈ newestRows rows ↔ answerOf rows key = some (some value) := by
  have single (row : MergeRow κ ν) :
      (key, value) ∈ (row.value.toList.map fun value => (row.key, value)) ↔
        answerOf [row] key = some (some value) := by
    rw [answer_single]
    by_cases same : row.key = key
    · rw [if_pos same]
      simp [same]
    · rw [if_neg same]
      simp [same]
  fun_induction newestRows rows with
  | case1 => simp [answerOf]
  | case2 row => exact single row
  | case3 row next rest same ih =>
      have later : (key, value) ∈ newestRows (next :: rest) ↔
          answerOf (next :: rest) key = some (some value) := ih (List.pairwise_cons.mp sorted).2
      rw [later]
      change _ ↔ answerOf ([row] ++ (next :: rest)) key = _
      rw [answer_append]
      cases found : answerOf (next :: rest) key with
      | some answer => rfl
      | none =>
          -- The next row has the same key, so this key is another one.
          have different : row.key ≠ key := by
            intro here
            change answerOf ([next] ++ rest) key = none at found
            rw [answer_append, answer_single, if_pos (same.trans here)] at found
            simp at found
          rw [answer_single, if_neg different]
          rfl
  | case4 row next rest other ih =>
      have later : (key, value) ∈ newestRows (next :: rest) ↔
          answerOf (next :: rest) key = some (some value) := ih (List.pairwise_cons.mp sorted).2
      rw [List.mem_append, later, single row]
      change _ ↔ answerOf ([row] ++ (next :: rest)) key = _
      rw [answer_append]
      by_cases here : row.key = key
      · have absent : answerOf (next :: rest) key = none := by
          apply answer_none
          intro later member same
          have above := key_lt_of_sorted row next rest sorted other later member
          rw [same, here] at above
          exact absurd above (lt_irrefl key)
        rw [absent]
        simp
      · rw [answer_single, if_neg here]
        cases answerOf (next :: rest) key with
        | none => simp
        | some answer => simp

def runRows (layer : Nat) (run : SortedRun κ ν) : List (MergeRow κ ν) :=
  run.entries.map fun entry => ⟨entry.1, layer, some entry.2, 0⟩

def journalRows (layer : Nat) (journal : List (JournalEntry κ ν)) : List (MergeRow κ ν) :=
  journal.map fun entry => ⟨entry.op.key, layer, entry.op.value?, entry.lsn⟩

omit [LinearOrder κ] in
theorem merge_rows_eq (node : LoadedNode κ ν) :
    node.mergeRows = (node.sortedRuns.mapIdx runRows).flatten ++
      journalRows node.sortedRuns.length node.pendingJournal := rfl

def Older (left right : MergeRow κ ν) : Prop :=
  left.layer < right.layer ∨ left.layer = right.layer ∧ left.lsn ≤ right.lsn

omit [LinearOrder κ] in
theorem merge_rows_older (node : LoadedNode κ ν)
    (ordered : (node.pendingJournal.map JournalEntry.lsn).Pairwise (· ≤ ·)) :
    node.mergeRows.Pairwise Older := by
  have layered (layer : Nat) (run : SortedRun κ ν) :
      ∀ row ∈ runRows layer run, row.layer = layer ∧ row.lsn = 0 := by
    intro row member
    obtain ⟨entry, -, rfl⟩ := List.mem_map.mp member
    exact ⟨rfl, rfl⟩
  rw [merge_rows_eq, List.pairwise_append, List.pairwise_flatten]
  refine ⟨⟨?_, ?_⟩, ?_, ?_⟩
  · intro rows member
    obtain ⟨layer, inside, rfl⟩ := List.mem_mapIdx.mp member
    apply List.pairwise_of_forall_mem_list
    intro left leftMember right rightMember
    have leftFacts := layered _ _ left leftMember
    have rightFacts := layered _ _ right rightMember
    refine .inr ⟨leftFacts.1.trans rightFacts.1.symm, ?_⟩
    rw [leftFacts.2, rightFacts.2]
  · rw [List.pairwise_iff_getElem]
    intro first second firstInside secondInside less left leftMember right rightMember
    rw [List.getElem_mapIdx] at leftMember rightMember
    have leftFacts := layered _ _ left leftMember
    have rightFacts := layered _ _ right rightMember
    left
    rw [leftFacts.1, rightFacts.1]
    exact less
  · rw [journalRows, List.pairwise_map]
    rw [List.pairwise_map] at ordered
    apply ordered.imp
    intro left right less
    exact .inr ⟨rfl, less⟩
  · intro left leftMember right rightMember
    obtain ⟨rows, listed, member⟩ := List.mem_flatten.mp leftMember
    obtain ⟨layer, inside, rfl⟩ := List.mem_mapIdx.mp listed
    obtain ⟨entry, -, rfl⟩ := List.mem_map.mp rightMember
    left
    rw [(layered _ _ left member).1]
    exact inside

private theorem key_le_of_rank (left right : MergeRow κ ν) (below : left.rank ≤ right.rank) :
    left.key ≤ right.key := by
  cases Prod.Lex.le_iff.mp below with
  | inl less => exact le_of_lt less
  | inr same => exact le_of_eq same.1

theorem rank_le_of_older (left right : MergeRow κ ν) (same : left.key = right.key)
    (older : Older left right) : left.rank ≤ right.rank := by
  apply Prod.Lex.le_iff.mpr
  refine .inr ⟨same, Prod.Lex.le_iff.mpr ?_⟩
  cases older with
  | inl less => exact .inl less
  | inr level => exact .inr level

theorem merge_iter_eq (node : LoadedNode κ ν) :
    node.mergeIter = newestRows (StableMerge.sort MergeRow.rank node.mergeRows) := rfl

theorem sorted_keys (node : LoadedNode κ ν) :
    (StableMerge.sort MergeRow.rank node.mergeRows).Pairwise
      fun left right => left.key ≤ right.key :=
  (StableMerge.sorted_sort MergeRow.rank node.mergeRows).imp
    fun below => key_le_of_rank _ _ below

theorem merge_iter_increasing (node : LoadedNode κ ν) :
    (node.mergeIter.map Prod.fst).Pairwise (· < ·) :=
  newest_rows_increasing _ (sorted_keys node)

theorem mem_merge_iter (node : LoadedNode κ ν)
    (ordered : (node.pendingJournal.map JournalEntry.lsn).Pairwise (· ≤ ·)) (key : κ)
    (value : ν) :
    (key, value) ∈ node.mergeIter ↔ answerOf node.mergeRows key = some (some value) := by
  have kept : (StableMerge.sort MergeRow.rank node.mergeRows).filter (fun row => row.key = key) =
      node.mergeRows.filter fun row => row.key = key := by
    apply StableMerge.filter_sort
    have older := (merge_rows_older node ordered).filter fun row => decide (row.key = key)
    apply older.imp_of_mem
    intro left right leftMember rightMember before
    have leftKey := of_decide_eq_true (List.mem_filter.mp leftMember).2
    have rightKey := of_decide_eq_true (List.mem_filter.mp rightMember).2
    exact rank_le_of_older left right (leftKey.trans rightKey.symm) before
  rw [merge_iter_eq, mem_newest_rows _ (sorted_keys node), answerOf, kept, ← answerOf]

def journalRank (row : MergeRow κ ν) : κ ×ₗ UInt64 := toLex (row.key, row.lsn)

/-- The rows of the journal, sorted by key and number, and those of the runs, each
of which is sorted by key. -/
def mergeSources (node : LoadedNode κ ν) : List (List (MergeRow κ ν)) :=
  node.sortedRuns.mapIdx runRows ++
    [StableMerge.sort journalRank (journalRows node.sortedRuns.length node.pendingJournal)]

private theorem sorted_run_rows (layer : Nat) (run : SortedRun κ ν)
    (increasing : (run.entries.map Prod.fst).Pairwise (· < ·)) :
    StableMerge.Sorted MergeRow.rank (runRows layer run) := by
  rw [StableMerge.Sorted, runRows, List.pairwise_map]
  rw [List.pairwise_map] at increasing
  apply increasing.imp
  intro left right less
  exact Prod.Lex.le_iff.mpr (.inl less)

omit [LinearOrder κ] in
theorem journal_rows_layer (layer : Nat) (journal : List (JournalEntry κ ν)) :
    ∀ row ∈ journalRows layer journal, row.layer = layer := by
  intro row member
  obtain ⟨entry, -, rfl⟩ := List.mem_map.mp member
  rfl

theorem rank_le_iff (left right : MergeRow κ ν) (same : left.layer = right.layer) :
    left.rank ≤ right.rank ↔ journalRank left ≤ journalRank right := by
  simp only [MergeRow.rank, journalRank, Prod.Lex.le_iff, ofLex_toLex, same, lt_irrefl, true_and,
    false_or]

omit [LinearOrder κ] in
theorem layer_of_source (node : LoadedNode κ ν) :
    ∀ source ∈ node.sortedRuns.mapIdx runRows, ∀ row ∈ source,
      row.layer < node.sortedRuns.length := by
  intro source member row inside
  obtain ⟨layer, bound, rfl⟩ := List.mem_mapIdx.mp member
  obtain ⟨entry, -, rfl⟩ := List.mem_map.mp inside
  exact bound

theorem layer_of_journal_source (node : LoadedNode κ ν) :
    ∀ row ∈ StableMerge.sort journalRank (journalRows node.sortedRuns.length node.pendingJournal),
      row.layer = node.sortedRuns.length := by
  intro row member
  exact journal_rows_layer _ node.pendingJournal row (List.mem_mergeSort.mp member)

/-- The layer is part of the rank, so rows of two sources never rank the same. -/
theorem sources_apart (node : LoadedNode κ ν) :
    node.mergeSources.Pairwise fun left right =>
      ∀ first ∈ left, ∀ second ∈ right, first.rank ≠ second.rank := by
  have apart (first second : MergeRow κ ν) (below : first.layer < second.layer) :
      first.rank ≠ second.rank := by
    intro same
    simp only [MergeRow.rank, EmbeddingLike.apply_eq_iff_eq, Prod.mk.injEq] at same
    exact absurd same.2.1 (Nat.ne_of_lt below)
  rw [mergeSources, List.pairwise_append]
  refine ⟨?_, List.pairwise_singleton _ _, ?_⟩
  · rw [List.pairwise_iff_getElem]
    intro i j insideI insideJ less first firstMember second secondMember
    rw [List.getElem_mapIdx] at firstMember secondMember
    obtain ⟨entry, -, rfl⟩ := List.mem_map.mp firstMember
    obtain ⟨other, -, rfl⟩ := List.mem_map.mp secondMember
    exact apart _ _ less
  · intro source member journal single first firstMember second secondMember
    rw [List.mem_singleton.mp single] at secondMember
    apply apart
    rw [layer_of_journal_source node second secondMember]
    exact layer_of_source node source member first firstMember

/-- Whatever merges the sources in the order of the rows, the node's own entries come out. -/
theorem merge_of_sources (node : LoadedNode κ ν)
    (runs : ∀ run ∈ node.sortedRuns, (run.entries.map Prod.fst).Pairwise (· < ·))
    (kmerge : List (List (MergeRow κ ν)) → List (MergeRow κ ν))
    (merges : StableMerge.Merges MergeRow.rank kmerge) :
    node.mergeIter = newestRows (kmerge node.mergeSources) := by
  have layer := journal_rows_layer node.sortedRuns.length node.pendingJournal
  have sortedLayer := layer_of_journal_source node
  have sorted : ∀ source ∈ node.mergeSources, StableMerge.Sorted MergeRow.rank source := by
    intro source member
    cases List.mem_append.mp member with
    | inl run =>
        obtain ⟨index, inside, rfl⟩ := List.mem_mapIdx.mp run
        exact sorted_run_rows index _ (runs _ (List.getElem_mem inside))
    | inr journal =>
        rw [List.mem_singleton.mp journal]
        apply (StableMerge.sorted_sort journalRank _).imp_of_mem
        intro left right leftMember rightMember below
        exact (rank_le_iff left right
          ((sortedLayer left leftMember).trans (sortedLayer right rightMember).symm)).mpr below
  have rows : StableMerge.sort MergeRow.rank node.mergeSources.flatten =
      StableMerge.sort MergeRow.rank node.mergeRows := by
    apply StableMerge.eq_of_filters MergeRow.rank _ _ (StableMerge.sorted_sort _ _)
      (StableMerge.sorted_sort _ _)
    intro level
    rw [StableMerge.filter_sort _ _ _ (StableMerge.sorted_level _ _ level),
      StableMerge.filter_sort _ _ _ (StableMerge.sorted_level _ _ level), mergeSources,
      merge_rows_eq, List.flatten_append, List.flatten_singleton, List.filter_append,
      List.filter_append]
    congr 1
    apply StableMerge.filter_sort
    apply (StableMerge.sorted_level MergeRow.rank _ level).imp_of_mem
    intro left right leftMember rightMember below
    have leftLayer := layer left (List.mem_filter.mp leftMember).1
    have rightLayer := layer right (List.mem_filter.mp rightMember).1
    exact (rank_le_iff left right (leftLayer.trans rightLayer.symm)).mp below
  rw [merge_iter_eq, merges.eq_sort _ sorted (sources_apart node), rows]

theorem journal_answer_eq (layer : Nat) (key : κ) (journal : List (JournalEntry κ ν)) :
    journalAnswer key journal.reverse = answerOf (journalRows layer journal) key := by
  induction journal using List.reverseRecOn with
  | nil => rfl
  | append_singleton journal entry ih =>
      have rows : journalRows layer (journal ++ [entry]) = journalRows layer journal ++
          [⟨entry.op.key, layer, entry.op.value?, entry.lsn⟩] := List.map_append
      rw [rows, answer_entry, List.reverse_append, List.reverse_singleton,
        List.singleton_append, journalAnswer, ih]

theorem by_key_lookup (layer : Nat) (key : κ) (journal : List (JournalEntry κ ν))
    (live : ∀ entry ∈ journal, entry.op.isTombstone = false) :
    ((byKey journal).lookup key).map some = answerOf (journalRows layer journal) key := by
  induction journal using List.reverseRecOn with
  | nil => rfl
  | append_singleton journal entry ih =>
      have before := ih fun other member => live other (List.mem_append_left _ member)
      have last := live entry (List.mem_append_right _ (List.mem_singleton_self entry))
      have rows : journalRows layer (journal ++ [entry]) = journalRows layer journal ++
          [⟨entry.op.key, layer, entry.op.value?, entry.lsn⟩] := List.map_append
      rw [rows, answer_entry, ← before, byKey, List.foldl_concat, ← byKey]
      cases operation : entry.op with
      | insert name value =>
          dsimp only
          rw [lookup_insert_eq]
          by_cases same : name = key
          · rw [if_pos same.symm]
            exact (if_pos same).symm
          · rw [if_neg (Ne.symm same)]
            exact (if_neg same).symm
      | remove name =>
          rw [operation] at last
          cases last
      | whiteout name =>
          rw [operation] at last
          cases last

theorem answer_entries (layer : Nat) (entries : List (κ × ν))
    (increasing : (entries.map Prod.fst).Pairwise (· < ·)) (key : κ) (value : ν) :
    answerOf (entries.map fun entry => (⟨entry.1, layer, some entry.2, 0⟩ : MergeRow κ ν)) key =
        some (some value) ↔ (key, value) ∈ entries := by
  rw [← mem_newest_rows]
  · rw [newest_distinct]
    · simp
    · rw [List.map_map]
      exact increasing.imp fun less => ne_of_lt less
  · rw [List.pairwise_map]
    rw [List.pairwise_map] at increasing
    exact increasing.imp fun less => le_of_lt less

theorem answer_entries_ne (layer : Nat) (entries : List (κ × ν)) (key : κ) :
    answerOf (entries.map fun entry => (⟨entry.1, layer, some entry.2, 0⟩ : MergeRow κ ν)) key ≠
      some none := by
  intro found
  obtain ⟨row, last, none⟩ := Option.map_eq_some_iff.mp found
  have member := (List.mem_filter.mp (List.mem_of_getLast? last)).1
  obtain ⟨entry, -, rfl⟩ := List.mem_map.mp member
  cases none

theorem answer_to_sorted (layer : Nat) (m : FMap κ ν) (key : κ) :
    answerOf ((toSorted m).map fun entry => (⟨entry.1, layer, some entry.2, 0⟩ : MergeRow κ ν))
      key = (m.lookup key).map some := by
  have found := answer_entries layer (toSorted m) (increasing_to_sorted m) key
  have live := answer_entries_ne layer (toSorted m) key
  cases located : m.lookup key with
  | some value => exact (found value).mpr ((mem_to_sorted m key value).mpr located)
  | none =>
      cases answered : answerOf ((toSorted m).map fun entry =>
          (⟨entry.1, layer, some entry.2, 0⟩ : MergeRow κ ν)) key with
      | none => rfl
      | some answer =>
          cases answer with
          | none => exact absurd answered live
          | some value =>
              have member := (found value).mp answered
              rw [mem_to_sorted, located] at member
              cases member

inductive NodeCall (κ ν : Type) where
  | insert (lsn : UInt64) (key : κ) (value : ν)
  | remove (lsn : UInt64) (key : κ)
  | pushJournal (entry : JournalEntry κ ν)
  | flushToRun
  | compact
  | lookup (key : κ)

/-- The journal entry that a call makes. -/
def NodeCall.entry : NodeCall κ ν → Option (JournalEntry κ ν)
  | .insert lsn key value => some { lsn := lsn, op := .insert key value }
  | .remove lsn key => some { lsn := lsn, op := .remove key }
  | .pushJournal entry => some entry
  | .flushToRun => none
  | .compact => none
  | .lookup _ => none

def apply (node : LoadedNode κ ν) : NodeCall κ ν → LoadedNode κ ν
  | .insert lsn key value => node.insert lsn key value
  | .remove lsn key => node.remove lsn key
  | .pushJournal entry => node.pushJournal entry
  | .flushToRun => node.flushToRun.2
  | .compact => node.compact
  | .lookup key => (node.lookup key).2

/-- What an entry does to the map. -/
def applyEntry (m : FMap κ ν) (entry : JournalEntry κ ν) : FMap κ ν :=
  match entry.op with
  | .insert key value => m.insert key value
  | .remove key => m.erase key
  | .whiteout key => m.erase key

private theorem apply_entry_lookup (m : FMap κ ν) (entry : JournalEntry κ ν) (key : κ) :
    (applyEntry m entry).lookup key =
      if key = entry.op.key then entry.op.value? else m.lookup key := by
  unfold applyEntry
  cases entry.op with
  | insert name value => exact lookup_insert_eq m key name value
  | remove name => exact lookup_erase_eq m key name
  | whiteout name => exact lookup_erase_eq m key name

/-- What a call does to the map: only entries change it. -/
def applyMap (m : FMap κ ν) (call : NodeCall κ ν) : FMap κ ν :=
  match call.entry with
  | some entry => applyEntry m entry
  | none => m

/-- A node holds a map, and its journal goes up to a number. -/
structure Represents (node : LoadedNode κ ν) (m : FMap κ ν) (newest : UInt64) : Prop where
  runs : ∀ run ∈ node.sortedRuns, (run.entries.map Prod.fst).Pairwise (· < ·)
  ordered : (node.pendingJournal.map JournalEntry.lsn).Pairwise (· ≤ ·)
  bounded : ∀ entry ∈ node.pendingJournal, entry.lsn ≤ newest
  content : ∀ key, (answerOf node.mergeRows key).join = m.lookup key
  cached : ∀ view, node.mergedView = some view → view = node.mergeIter

private theorem represents_new (kind : BtreeKind) (level regionSizeLog2 : UInt8) :
    Represents (LoadedNode.new kind level regionSizeLog2 : LoadedNode κ ν) ∅ 0 := by
  refine ⟨?_, List.Pairwise.nil, ?_, ?_, ?_⟩
  · intro run member
    cases member
  · intro entry member
    cases member
  · intro key
    rw [Finmap.lookup_empty]
    rfl
  · intro view cached
    cases cached

section

variable {node : LoadedNode κ ν} {m : FMap κ ν} {newest : UInt64}

theorem represents_mem (represents : Represents node m newest) (key : κ) (value : ν) :
    (key, value) ∈ node.mergeIter ↔ m.lookup key = some value := by
  rw [mem_merge_iter node represents.ordered, ← represents.content]
  cases answerOf node.mergeRows key with
  | none => simp
  | some answer => simp

private theorem represents_push (represents : Represents node m newest) (entry : JournalEntry κ ν)
    (later : newest ≤ entry.lsn) :
    Represents (node.pushJournal entry) (applyEntry m entry) entry.lsn := by
  refine ⟨represents.runs, ?_, ?_, ?_, ?_⟩
  · rw [pushJournal, List.map_append, List.pairwise_append]
    refine ⟨represents.ordered, List.pairwise_singleton _ _, ?_⟩
    intro before member after last
    obtain ⟨other, present, rfl⟩ := List.mem_map.mp member
    rw [List.map_cons, List.map_nil, List.mem_singleton] at last
    rw [last]
    exact le_trans (represents.bounded other present) later
  · intro other member
    cases List.mem_append.mp member with
    | inl before => exact le_trans (represents.bounded other before) later
    | inr last => rw [List.mem_singleton.mp last]
  · intro key
    have rows : (node.pushJournal entry).mergeRows = node.mergeRows ++
        [⟨entry.op.key, node.sortedRuns.length, entry.op.value?, entry.lsn⟩] := by
      rw [merge_rows_eq, merge_rows_eq, List.append_assoc]
      congr 1
      exact List.map_append
    have before := represents.content key
    rw [rows, answer_entry, apply_entry_lookup, apply_ite Option.join, before]
    by_cases same : entry.op.key = key
    · rw [if_pos same, if_pos same.symm]
      rfl
    · rw [if_neg same, if_neg (Ne.symm same)]
  · intro view cached
    cases cached

private theorem represents_flush (represents : Represents node m newest) :
    Represents node.flushToRun.2 m newest := by
  unfold flushToRun
  split
  · exact represents
  · split
    · exact represents
    · next live =>
        have inserts : ∀ entry ∈ node.pendingJournal, entry.op.isTombstone = false := by
          intro entry member
          rw [Bool.not_eq_true, List.any_eq_false] at live
          exact Bool.eq_false_iff.mpr (live entry member)
        refine ⟨?_, List.Pairwise.nil, ?_, ?_, ?_⟩
        · intro run member
          cases List.mem_append.mp member with
          | inl before => exact represents.runs run before
          | inr last =>
              rw [List.mem_singleton.mp last]
              exact increasing_to_sorted _
        · intro entry member
          cases member
        · intro key
          rw [← represents.content key, merge_rows_eq, merge_rows_eq, List.mapIdx_concat,
            List.flatten_concat, answer_append, answer_append, answer_append,
            ← by_key_lookup node.sortedRuns.length key node.pendingJournal inserts]
          have run := answer_to_sorted node.sortedRuns.length (byKey node.pendingJournal) key
          exact congrArg
            (fun answer => ((Option.none.or (Option.or answer _)).join : Option ν)) run
        · intro view cached
          cases cached

private theorem represents_compact (represents : Represents node m newest) :
    Represents node.compact m newest := by
  have members (key : κ) (value : ν) := represents_mem represents key value
  refine ⟨?_, List.Pairwise.nil, ?_, ?_, ?_⟩
  · intro run member
    simp only [compact] at member
    split at member
    · cases member
    · rw [List.mem_singleton.mp member]
      exact merge_iter_increasing node
  · intro entry member
    cases member
  · intro key
    have rows : node.compact.mergeRows = node.mergeIter.map fun entry =>
        (⟨entry.1, 0, some entry.2, 0⟩ : MergeRow κ ν) := by
      rw [merge_rows_eq]
      simp only [compact]
      split
      · next none =>
          rw [List.isEmpty_iff.mp none]
          rfl
      · simp [runRows, journalRows, SortedRun.fromSorted]
    have found := answer_entries 0 node.mergeIter (merge_iter_increasing node) key
    have live := answer_entries_ne 0 node.mergeIter key
    rw [rows]
    apply Option.ext
    intro value
    rw [← members, ← found value, Option.join_eq_some_iff]
  · intro view cached
    cases cached

theorem represents_lookup (represents : Represents node m newest) (key : κ) :
    (node.lookup key).1 = m.lookup key ∧ Represents (node.lookup key).2 m newest := by
  have searched : BinarySearch.search node.mergeIter key = m.lookup key := by
    apply Option.ext
    intro value
    rw [BinarySearch.search_eq_some _ (merge_iter_increasing node), represents_mem represents]
  have walked := journal_answer_eq node.sortedRuns.length key node.pendingJournal
  unfold lookup
  split
  · next answer found =>
      refine ⟨?_, represents⟩
      rw [← represents.content key, merge_rows_eq, answer_append, ← walked, found]
      rfl
  · split
    · next view cached =>
        rw [represents.cached view cached]
        exact ⟨searched, represents⟩
    · refine ⟨searched, represents.runs, represents.ordered, represents.bounded,
        represents.content, ?_⟩
      intro view cached
      cases cached
      rfl

end

def lsns (calls : List (NodeCall κ ν)) : List UInt64 :=
  calls.filterMap fun call => call.entry.map JournalEntry.lsn

private theorem represents_apply (node : LoadedNode κ ν) (m : FMap κ ν) (newest : UInt64)
    (represents : Represents node m newest) (call : NodeCall κ ν)
    (later : ∀ entry, call.entry = some entry → newest ≤ entry.lsn) :
    Represents (node.apply call) (applyMap m call)
      ((call.entry.map JournalEntry.lsn).getD newest) := by
  cases call with
  | insert lsn key value => exact represents_push represents _ (later _ rfl)
  | remove lsn key => exact represents_push represents _ (later _ rfl)
  | pushJournal entry => exact represents_push represents entry (later entry rfl)
  | flushToRun => exact represents_flush represents
  | compact => exact represents_compact represents
  | lookup key => exact (represents_lookup represents key).2

private theorem represents_run (calls : List (NodeCall κ ν)) :
    ∀ (node : LoadedNode κ ν) (m : FMap κ ν) (newest : UInt64), Represents node m newest →
      (∀ lsn ∈ lsns calls, newest ≤ lsn) → (lsns calls).Pairwise (· ≤ ·) →
      ∃ last, Represents (calls.foldl apply node) (calls.foldl applyMap m) last := by
  induction calls with
  | nil =>
      intro node m newest represents _ _
      exact ⟨newest, represents⟩
  | cons call rest ih =>
      intro node m newest represents above ordered
      cases made : call.entry with
      | none =>
          have same : lsns (call :: rest) = lsns rest :=
            List.filterMap_cons_none (by rw [made]; rfl)
          rw [same] at above ordered
          have next := represents_apply node m newest represents call (by
            intro entry found
            rw [made] at found
            cases found)
          rw [made] at next
          exact ih _ _ newest next above ordered
      | some entry =>
          have more : lsns (call :: rest) = entry.lsn :: lsns rest :=
            List.filterMap_cons_some (by rw [made]; rfl)
          rw [more] at above ordered
          rw [List.pairwise_cons] at ordered
          have next := represents_apply node m newest represents call (by
            intro other found
            rw [made] at found
            cases found
            exact above _ List.mem_cons_self)
          rw [made] at next
          exact ih _ _ entry.lsn next ordered.1 ordered.2

def nodeAfter (kind : BtreeKind) (level regionSizeLog2 : UInt8) (calls : List (NodeCall κ ν)) :
    LoadedNode κ ν :=
  calls.foldl apply (LoadedNode.new kind level regionSizeLog2)

def mapAfter (calls : List (NodeCall κ ν)) : FMap κ ν := calls.foldl applyMap ∅

/-- A node answers as a map does, with any merge of the rows of its layers. -/
structure RefinesMap (node : LoadedNode κ ν) (m : FMap κ ν) : Prop where
  lookup : ∀ key, (node.lookup key).1 = m.lookup key
  merge : ∀ kmerge, StableMerge.Merges MergeRow.rank kmerge →
    node.mergeIter = newestRows (kmerge node.mergeSources)
  mergeSorted : (node.mergeIter.map Prod.fst).Pairwise (· < ·)
  mergeEntries : ∀ key value, (key, value) ∈ node.mergeIter ↔ m.lookup key = some value
  rangeSorted : ∀ lo hi, ((node.range lo hi).map Prod.fst).Pairwise (· < ·)
  rangeEntries : ∀ lo hi key value,
    (key, value) ∈ node.range lo hi ↔ lo ≤ key ∧ key < hi ∧ m.lookup key = some value
  refusedFlush : ∀ err after, node.flushToRun = (.error err, after) → after = node

private theorem refused_flush (node after : LoadedNode κ ν) (err : StorageError)
    (refused : node.flushToRun = (.error err, after)) : after = node := by
  unfold flushToRun at refused
  split at refused
  · cases refused
  · split at refused
    · cases refused
      rfl
    · cases refused

/-- After any calls with numbers that do not decrease, a node is the map of its inserts and
removes. -/
theorem node_refines_map (kind : BtreeKind) (level regionSizeLog2 : UInt8)
    (calls : List (NodeCall κ ν)) (ordered : (lsns calls).Pairwise (· ≤ ·)) :
    RefinesMap (nodeAfter kind level regionSizeLog2 calls) (mapAfter calls) := by
  obtain ⟨last, represents⟩ := represents_run calls _ _ 0 (represents_new kind level regionSizeLog2)
    (fun lsn _ => UInt64.zero_le) ordered
  change Represents (nodeAfter kind level regionSizeLog2 calls) (mapAfter calls) last at represents
  have increasing := merge_iter_increasing (nodeAfter kind level regionSizeLog2 calls)
  have members (key : κ) (value : ν) := represents_mem represents key value
  refine ⟨?_, merge_of_sources _ represents.runs, increasing, members, ?_, ?_, ?_⟩
  · intro key
    exact (represents_lookup represents key).1
  · intro lo hi
    rw [List.pairwise_map] at increasing ⊢
    exact increasing.filter _
  · intro lo hi key value
    rw [range, List.mem_filter, members, decide_eq_true_eq]
    tauto
  · intro err after refused
    exact refused_flush _ after err refused

example (node : LoadedNode κ ν) (m : FMap κ ν) (refines : RefinesMap node m) :
    node.mergeIter = newestRows (StableMerge.merge MergeRow.rank node.mergeSources) :=
  refines.merge _ (StableMerge.merges_merge _)

theorem removed_key_refines_map :
    (lsns [NodeCall.insert 1 (5 : Nat) "a", .flushToRun, .lookup 5, .remove 1 5, .flushToRun,
      .compact]).Pairwise (· ≤ ·) ∧
    RefinesMap
      (nodeAfter .objectTable 0 18
        [NodeCall.insert 1 (5 : Nat) "a", .flushToRun, .lookup 5, .remove 1 5, .flushToRun,
          .compact])
      (mapAfter
        [NodeCall.insert 1 (5 : Nat) "a", .flushToRun, .lookup 5, .remove 1 5, .flushToRun,
          .compact]) :=
  ⟨by decide, node_refines_map .objectTable 0 18 _ (by decide)⟩

end Mimisbrunnr.Storage.LoadedNode
