import Mimisbrunnr.Storage.NodeMap

/-!
# Numbers out of order

A lookup takes the newest journal entry of a key by its place, and a merge by its
number. Where an entry is pushed with a smaller number than another one of its key
that is still in the journal, the two are not the same entry, and the node answers
in two ways unless both entries say the same. A flush keeps the entry that a
lookup takes.
-/

namespace Mimisbrunnr.Storage.LoadedNode

set_option autoImplicit false

open Mimisbrunnr.Lib
open Mimisbrunnr.Lib.FiniteMap

variable {κ ν : Type} [LinearOrder κ]

/-- A lookup finds what the merge yields, and a flush does not change what the merge yields. -/
structure Agrees (node : LoadedNode κ ν) : Prop where
  lookup : ∀ key value, (node.lookup key).1 = some value ↔ (key, value) ∈ node.mergeIter
  flush : node.flushToRun.2.mergeIter = node.mergeIter

/-- A new entry with a smaller number than one of the same key in the journal says what the last
entry of this key says. -/
def PushFits (node : LoadedNode κ ν) (entry : JournalEntry κ ν) : Prop :=
  (∃ other ∈ node.pendingJournal, other.op.key = entry.op.key ∧ entry.lsn < other.lsn) →
    journalAnswer entry.op.key node.pendingJournal.reverse = some entry.op.value?

def CallsFit : LoadedNode κ ν → List (NodeCall κ ν) → Prop
  | _, [] => True
  | node, call :: rest =>
      (∀ entry, call.entry = some entry → PushFits node entry) ∧ CallsFit (node.apply call) rest

/-- What the entry of a key with the greatest number says, of equal ones the last. -/
def sortedAnswer (layer : Nat) (journal : List (JournalEntry κ ν)) (key : κ) :
    Option (Option ν) :=
  answerOf (StableMerge.sort MergeRow.rank (journalRows layer journal)) key

/-- The entry with the greatest number and the last one say the same. -/
def Settled (node : LoadedNode κ ν) : Prop :=
  ∀ key, sortedAnswer node.sortedRuns.length node.pendingJournal key =
    journalAnswer key node.pendingJournal.reverse

/-- What every node that calls lead to satisfies. -/
structure Sound (node : LoadedNode κ ν) : Prop where
  runs : ∀ run ∈ node.sortedRuns, (run.entries.map Prod.fst).Pairwise (· < ·)
  cached : ∀ view, node.mergedView = some view → view = node.mergeIter

theorem answer_of_sort (rows : List (MergeRow κ ν)) (key : κ) :
    answerOf (StableMerge.sort MergeRow.rank rows) key =
      (StableMerge.sort MergeRow.rank
        (rows.filter fun row => row.key = key)).getLast?.map MergeRow.value := by
  rw [answerOf, StableMerge.filter_sort_comm]

private theorem rank_lt_iff (left right : MergeRow κ ν) (key : left.key = right.key)
    (layer : left.layer = right.layer) : left.rank < right.rank ↔ left.lsn < right.lsn := by
  rw [← not_le, ← not_le, not_iff_not, rank_le_iff right left layer.symm, journalRank, journalRank,
    Prod.Lex.le_iff]
  simp only [ofLex_toLex, key, lt_irrefl, true_and, false_or]

/-- A new entry is the one with the greatest number unless one of its key is above it. -/
theorem sorted_answer_push (layer : Nat) (journal : List (JournalEntry κ ν))
    (entry : JournalEntry κ ν) (key : κ) :
    sortedAnswer layer (journal ++ [entry]) key =
      if entry.op.key = key ∧ ¬ ∃ other ∈ journal, other.op.key = key ∧ entry.lsn < other.lsn then
        some entry.op.value?
      else sortedAnswer layer journal key := by
  have rows : journalRows layer (journal ++ [entry]) = journalRows layer journal ++
      [⟨entry.op.key, layer, entry.op.value?, entry.lsn⟩] := List.map_append
  unfold sortedAnswer
  rw [answer_of_sort, answer_of_sort, rows, List.filter_append]
  by_cases same : entry.op.key = key
  · rw [List.filter_cons_of_pos (by simp [same]), List.filter_nil]
    -- the rows of the key are its entries, in the order of their numbers
    have member (row : MergeRow κ ν) :
        row ∈ (journalRows layer journal).filter (fun row => row.key = key) ↔
          ∃ other ∈ journal, other.op.key = key ∧
            (⟨other.op.key, layer, other.op.value?, other.lsn⟩ : MergeRow κ ν) = row := by
      rw [List.mem_filter, journalRows, List.mem_map]
      constructor
      · intro both
        obtain ⟨⟨other, inside, rfl⟩, here⟩ := both
        exact ⟨other, inside, of_decide_eq_true here, rfl⟩
      · intro found
        obtain ⟨other, inside, here, rfl⟩ := found
        exact ⟨⟨other, inside, rfl⟩, decide_eq_true here⟩
    by_cases above : ∃ other ∈ journal, other.op.key = key ∧ entry.lsn < other.lsn
    · rw [if_neg (fun both => both.2 above)]
      obtain ⟨other, inside, here, less⟩ := above
      rw [StableMerge.last_sort_append]
      refine ⟨⟨other.op.key, layer, other.op.value?, other.lsn⟩,
        (member _).mpr ⟨other, inside, here, rfl⟩, ?_⟩
      have keys : (⟨entry.op.key, layer, entry.op.value?, entry.lsn⟩ : MergeRow κ ν).key =
          (⟨other.op.key, layer, other.op.value?, other.lsn⟩ : MergeRow κ ν).key :=
        same.trans here.symm
      exact (rank_lt_iff _ _ keys rfl).mpr less
    · rw [if_pos ⟨same, above⟩, StableMerge.sort_append]
      · have single : StableMerge.sort MergeRow.rank
            [(⟨entry.op.key, layer, entry.op.value?, entry.lsn⟩ : MergeRow κ ν)] =
              [⟨entry.op.key, layer, entry.op.value?, entry.lsn⟩] := List.mergeSort_singleton _
        rw [single, List.getLast?_append, List.getLast?_singleton]
        rfl
      · intro row inside last here
        rw [List.mem_singleton.mp here]
        obtain ⟨other, present, its, rfl⟩ := (member row).mp inside
        apply le_of_not_gt
        intro less
        have keys : (⟨entry.op.key, layer, entry.op.value?, entry.lsn⟩ : MergeRow κ ν).key =
            (⟨other.op.key, layer, other.op.value?, other.lsn⟩ : MergeRow κ ν).key :=
          same.trans its.symm
        exact above ⟨other, present, its, (rank_lt_iff _ _ keys rfl).mp less⟩
  · rw [List.filter_cons_of_neg (by simp [same]), List.filter_nil, List.append_nil,
      if_neg (fun both => same both.1)]

private theorem settled_push (node : LoadedNode κ ν) (entry : JournalEntry κ ν)
    (settled : Settled node) :
    Settled (node.pushJournal entry) ↔ PushFits node entry := by
  have walked (key : κ) :
      journalAnswer key (node.pendingJournal ++ [entry]).reverse =
        if entry.op.key = key then some entry.op.value?
        else journalAnswer key node.pendingJournal.reverse := by
    rw [List.reverse_append, List.reverse_singleton, List.singleton_append, journalAnswer]
  have pushed (key : κ) :
      sortedAnswer node.sortedRuns.length (node.pendingJournal ++ [entry]) key =
        if entry.op.key = key ∧
            ¬ ∃ other ∈ node.pendingJournal, other.op.key = key ∧ entry.lsn < other.lsn then
          some entry.op.value?
        else journalAnswer key node.pendingJournal.reverse := by
    rw [sorted_answer_push, settled key]
  constructor
  · intro after above
    have here := after entry.op.key
    change sortedAnswer node.sortedRuns.length (node.pendingJournal ++ [entry]) entry.op.key =
      journalAnswer entry.op.key (node.pendingJournal ++ [entry]).reverse at here
    rw [pushed, walked, if_neg (fun both => both.2 above), if_pos rfl] at here
    exact here
  · intro fits key
    change sortedAnswer node.sortedRuns.length (node.pendingJournal ++ [entry]) key =
      journalAnswer key (node.pendingJournal ++ [entry]).reverse
    rw [pushed, walked]
    by_cases same : entry.op.key = key
    · subst same
      rw [if_pos rfl]
      by_cases above : ∃ other ∈ node.pendingJournal,
          other.op.key = entry.op.key ∧ entry.lsn < other.lsn
      · rw [if_neg (fun both => both.2 above)]
        exact fits above
      · rw [if_pos ⟨rfl, above⟩]
    · rw [if_neg (fun both => same both.1), if_neg same]

def runsRows (node : LoadedNode κ ν) : List (MergeRow κ ν) :=
  (node.sortedRuns.mapIdx runRows).flatten

/-- The merge yields what the journal says by its numbers, and else what the runs say. -/
theorem mem_merge_iff (node : LoadedNode κ ν) (key : κ) (value : ν) :
    (key, value) ∈ node.mergeIter ↔
      (sortedAnswer node.sortedRuns.length node.pendingJournal key).or
        (answerOf (runsRows node) key) = some (some value) := by
  have bare : ({ node with pendingJournal := [] } : LoadedNode κ ν).mergeRows = runsRows node :=
    List.append_nil _
  have older := merge_rows_older ({ node with pendingJournal := [] } : LoadedNode κ ν)
    List.Pairwise.nil
  rw [bare] at older
  have runsSorted : StableMerge.Sorted MergeRow.rank
      ((runsRows node).filter fun row => row.key = key) := by
    apply (older.filter fun row => decide (row.key = key)).imp_of_mem
    intro left right leftMember rightMember before
    have leftKey := of_decide_eq_true (List.mem_filter.mp leftMember).2
    have rightKey := of_decide_eq_true (List.mem_filter.mp rightMember).2
    exact rank_le_of_older left right (leftKey.trans rightKey.symm) before
  have runs : answerOf (StableMerge.sort MergeRow.rank (runsRows node)) key =
      answerOf (runsRows node) key := by
    rw [answerOf, StableMerge.filter_sort MergeRow.rank _ _ runsSorted, ← answerOf]
  have layers : ∀ first ∈ (runsRows node).filter (fun row => row.key = key),
      ∀ second ∈ (journalRows node.sortedRuns.length node.pendingJournal).filter
        (fun row => row.key = key), first.rank ≤ second.rank := by
    intro first firstMember second secondMember
    have firstKey := of_decide_eq_true (List.mem_filter.mp firstMember).2
    have secondKey := of_decide_eq_true (List.mem_filter.mp secondMember).2
    apply rank_le_of_older first second (firstKey.trans secondKey.symm)
    left
    obtain ⟨rows, listed, member⟩ := List.mem_flatten.mp (List.mem_filter.mp firstMember).1
    obtain ⟨layer, inside, rfl⟩ := List.mem_mapIdx.mp listed
    obtain ⟨entry, -, rfl⟩ := List.mem_map.mp member
    rw [journal_rows_layer _ _ second (List.mem_filter.mp secondMember).1]
    exact inside
  rw [merge_iter_eq, mem_newest_rows _ (sorted_keys node), ← runs, sortedAnswer, answer_of_sort,
    answer_of_sort, answer_of_sort, merge_rows_eq, ← runsRows, List.filter_append,
    StableMerge.sort_append MergeRow.rank _ _ layers, List.getLast?_append]
  cases (StableMerge.sort MergeRow.rank
      ((journalRows node.sortedRuns.length node.pendingJournal).filter
        fun row => row.key = key)).getLast? with
  | none => rfl
  | some row => rfl

theorem sorted_answer_none_iff (layer : Nat) (journal : List (JournalEntry κ ν)) (key : κ) :
    sortedAnswer layer journal key = none ↔ journalAnswer key journal.reverse = none := by
  rw [journal_answer_eq layer, sortedAnswer, answer_of_sort, answerOf, Option.map_eq_none_iff,
    Option.map_eq_none_iff, List.getLast?_eq_none_iff, List.getLast?_eq_none_iff,
    StableMerge.sort_eq_nil_iff]

/-- A lookup finds what the journal says by its places, and else what the runs say. -/
theorem lookup_iff (node : LoadedNode κ ν) (sound : Sound node) (key : κ) (value : ν) :
    (node.lookup key).1 = some value ↔
      (journalAnswer key node.pendingJournal.reverse).or (answerOf (runsRows node) key) =
        some (some value) := by
  have searched (absent : journalAnswer key node.pendingJournal.reverse = none) :
      BinarySearch.search node.mergeIter key = some value ↔
        answerOf (runsRows node) key = some (some value) := by
    rw [BinarySearch.search_eq_some _ (merge_iter_increasing node), mem_merge_iff,
      (sorted_answer_none_iff _ _ key).mpr absent, Option.none_or]
  unfold LoadedNode.lookup
  cases walked : journalAnswer key node.pendingJournal.reverse with
  | some answer =>
      rw [Option.some_or]
      constructor
      · intro same
        exact congrArg some same
      · intro same
        exact Option.some.inj same
  | none =>
      rw [Option.none_or]
      cases cache : node.mergedView with
      | some view =>
          have current := sound.cached view cache
          rw [current]
          exact searched walked
      | none => exact searched walked

/-- A flush turns the last entries of the journal into a run, or leaves the node as it is. -/
theorem flush_rows (node : LoadedNode κ ν) :
    node.flushToRun.2 = node ∨
      (node.flushToRun.2.pendingJournal = [] ∧ node.flushToRun.2.mergedView = none ∧
        (∀ run ∈ node.flushToRun.2.sortedRuns, run ∈ node.sortedRuns ∨
          run.entries = toSorted (byKey node.pendingJournal)) ∧
        ∀ key, answerOf (runsRows node.flushToRun.2) key =
          (journalAnswer key node.pendingJournal.reverse).or (answerOf (runsRows node) key)) := by
  unfold flushToRun
  split
  · exact .inl rfl
  · split
    · exact .inl rfl
    · next live =>
        have inserts : ∀ entry ∈ node.pendingJournal, entry.op.isTombstone = false := by
          intro entry member
          rw [Bool.not_eq_true, List.any_eq_false] at live
          exact Bool.eq_false_iff.mpr (live entry member)
        right
        refine ⟨rfl, rfl, ?_, ?_⟩
        · intro run member
          cases List.mem_append.mp member with
          | inl before => exact .inl before
          | inr last =>
              rw [List.mem_singleton.mp last]
              exact .inr rfl
        · intro key
          have run := answer_to_sorted node.sortedRuns.length (byKey node.pendingJournal) key
          rw [by_key_lookup node.sortedRuns.length key node.pendingJournal inserts,
            ← journal_answer_eq] at run
          rw [runsRows, List.mapIdx_concat, List.flatten_concat, answer_append]
          exact congrArg (fun answer => Option.or answer (answerOf (runsRows node) key)) run

theorem agrees_iff (node : LoadedNode κ ν) (sound : Sound node) : Agrees node ↔ Settled node := by
  constructor
  · intro agrees key
    have both (value : ν) := (lookup_iff node sound key value).symm.trans
      ((agrees.lookup key value).trans (mem_merge_iff node key value))
    have none := sorted_answer_none_iff node.sortedRuns.length node.pendingJournal key
    cases sorted : sortedAnswer node.sortedRuns.length node.pendingJournal key with
    | none => exact (none.mp sorted).symm
    | some answer =>
        cases walked : journalAnswer key node.pendingJournal.reverse with
        | none =>
            rw [none.mpr walked] at sorted
            cases sorted
        | some other =>
            rw [sorted, walked] at both
            simp only [Option.some_or, Option.some.injEq] at both
            congr 1
            apply Option.ext
            intro value
            exact (both value).symm
  · intro settled
    have merged (key : κ) (value : ν) := mem_merge_iff node key value
    constructor
    · intro key value
      rw [lookup_iff node sound, merged, settled key]
    · cases flush_rows node with
      | inl same => rw [same]
      | inr flushed =>
          apply entries_ext _ _ (merge_iter_increasing _) (merge_iter_increasing _)
          intro entry
          have empty : sortedAnswer node.flushToRun.2.sortedRuns.length
              node.flushToRun.2.pendingJournal entry.1 = none := by
            rw [sorted_answer_none_iff, flushed.1]
            rfl
          rw [mem_merge_iff, merged, empty, Option.none_or, flushed.2.2.2, settled]

private theorem sound_new (kind : BtreeKind) (level regionSizeLog2 : UInt8) :
    Sound (LoadedNode.new kind level regionSizeLog2 : LoadedNode κ ν) := by
  constructor
  · intro run member
    cases member
  · intro view cached
    cases cached

private theorem sound_flush (node : LoadedNode κ ν) (sound : Sound node) :
    Sound node.flushToRun.2 := by
  cases flush_rows node with
  | inl same =>
      rw [same]
      exact sound
  | inr flushed =>
      constructor
      · intro run member
        cases flushed.2.2.1 run member with
        | inl before => exact sound.runs run before
        | inr made =>
            rw [made]
            exact increasing_to_sorted _
      · intro view cached
        rw [flushed.2.1] at cached
        cases cached

private theorem sound_apply (node : LoadedNode κ ν) (sound : Sound node) (call : NodeCall κ ν) :
    Sound (node.apply call) := by
  have pushed (entry : JournalEntry κ ν) : Sound (node.pushJournal entry) := by
    constructor
    · exact sound.runs
    · intro view cached
      cases cached
  cases call with
  | insert lsn key value => exact pushed _
  | remove lsn key => exact pushed _
  | pushJournal entry => exact pushed entry
  | flushToRun => exact sound_flush node sound
  | compact =>
      constructor
      · intro run member
        simp only [apply, compact] at member
        split at member
        · cases member
        · rw [List.mem_singleton.mp member]
          exact merge_iter_increasing node
      · intro view cached
        cases cached
  | lookup key =>
      simp only [apply, LoadedNode.lookup]
      split
      · exact sound
      · split
        · exact sound
        · constructor
          · exact sound.runs
          · intro view cached
            cases cached
            rfl

theorem settled_of_empty (node : LoadedNode κ ν) (empty : node.pendingJournal = []) :
    Settled node := by
  intro key
  have nothing : journalAnswer key node.pendingJournal.reverse = none := by
    rw [empty]
    rfl
  rw [nothing, sorted_answer_none_iff]
  exact nothing

theorem settled_apply (node : LoadedNode κ ν) (settled : Settled node) (call : NodeCall κ ν) :
    Settled (node.apply call) ↔ ∀ entry, call.entry = some entry → PushFits node entry := by
  have pushed (entry : JournalEntry κ ν) : Settled (node.pushJournal entry) ↔
      ∀ other, some entry = some other → PushFits node other := by
    rw [settled_push node entry settled]
    constructor
    · intro fits other same
      rw [← Option.some.inj same]
      exact fits
    · intro all
      exact all entry rfl
  have quiet (after : Settled (node.apply call)) (none : call.entry = none) :
      Settled (node.apply call) ↔ ∀ entry, call.entry = some entry → PushFits node entry := by
    constructor
    · intro _ entry made
      rw [none] at made
      cases made
    · intro _
      exact after
  cases call with
  | insert lsn key value => exact pushed _
  | remove lsn key => exact pushed _
  | pushJournal entry => exact pushed entry
  | flushToRun =>
      apply quiet _ rfl
      cases flush_rows node with
      | inl same =>
          rw [apply, same]
          exact settled
      | inr flushed => exact settled_of_empty _ flushed.1
  | compact => exact quiet (settled_of_empty _ rfl) rfl
  | lookup key =>
      apply quiet _ rfl
      simp only [apply, LoadedNode.lookup]
      split
      · exact settled
      · split
        · exact settled
        · exact settled

private theorem agrees_along (calls : List (NodeCall κ ν)) :
    ∀ node : LoadedNode κ ν, Sound node → Settled node →
      ((∀ count, Agrees ((calls.take count).foldl apply node)) ↔ CallsFit node calls) := by
  induction calls with
  | nil =>
      intro node sound settled
      constructor
      · intro _
        trivial
      · intro _ count
        rw [List.take_nil]
        exact (agrees_iff node sound).mpr settled
  | cons call rest ih =>
      intro node sound settled
      have next := sound_apply node sound call
      constructor
      · intro all
        have after := (agrees_iff _ next).mp (all 1)
        exact ⟨(settled_apply node settled call).mp after,
          (ih _ next after).mp fun count => all (count + 1)⟩
      · intro fit count
        have after := (settled_apply node settled call).mpr fit.1
        cases count with
        | zero => exact (agrees_iff node sound).mpr settled
        | succ count => exact (ih _ next after).mpr fit.2 count

/-- In every state that calls lead to the lookups agree with the merge, and a flush keeps it,
exactly if every entry pushed below one of its key only repeats what the journal says. -/
theorem lookup_agrees_with_merge_iff (kind : BtreeKind) (level regionSizeLog2 : UInt8)
    (calls : List (NodeCall κ ν)) :
    (∀ count, Agrees (nodeAfter kind level regionSizeLog2 (calls.take count))) ↔
      CallsFit (LoadedNode.new kind level regionSizeLog2) calls :=
  agrees_along calls _ (sound_new kind level regionSizeLog2) (settled_of_empty _ rfl)

/-- The second entry of a key has the smaller number: the lookup finds it, and the merge the
first. -/
theorem smaller_number_pushed_later :
    ((nodeAfter .objectTable 0 18
        [NodeCall.insert 5 (1 : Nat) "a", NodeCall.insert 3 1 "b"]).lookup 1).1 = some "b" ∧
      (1, "a") ∈ (nodeAfter .objectTable 0 18
        [NodeCall.insert 5 (1 : Nat) "a", NodeCall.insert 3 1 "b"]).mergeIter ∧
      ¬ Agrees (nodeAfter .objectTable 0 18
        [NodeCall.insert 5 (1 : Nat) "a", NodeCall.insert 3 1 "b"]) := by
  have found : ((nodeAfter .objectTable 0 18
      [NodeCall.insert 5 (1 : Nat) "a", NodeCall.insert 3 1 "b"]).lookup 1).1 = some "b" := by
    decide +kernel
  have first : sortedAnswer 0 [(⟨5, .insert (1 : Nat) "a"⟩ : JournalEntry Nat String)] 1 =
      some (some "a") := by
    rw [← List.nil_append [_], sorted_answer_push, if_pos (by decide)]
    rfl
  have both : sortedAnswer 0
      ([(⟨5, .insert (1 : Nat) "a"⟩ : JournalEntry Nat String)] ++ [⟨3, .insert 1 "b"⟩]) 1 =
        some (some "a") := by
    rw [sorted_answer_push, if_neg (by decide), first]
  have merged : (1, "a") ∈ (nodeAfter .objectTable 0 18
      [NodeCall.insert 5 (1 : Nat) "a", NodeCall.insert 3 1 "b"]).mergeIter := by
    rw [mem_merge_iff]
    exact congrArg (fun answer => Option.or answer none) both
  refine ⟨found, merged, ?_⟩
  intro agrees
  have other := (agrees.lookup 1 "a").mpr merged
  rw [found] at other
  exact absurd other (by decide)

end Mimisbrunnr.Storage.LoadedNode
