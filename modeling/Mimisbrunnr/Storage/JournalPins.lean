import Mathlib.Order.Bounds.Basic
import Mimisbrunnr.Lib.MachineOrder
import Mimisbrunnr.Lib.Runs
import Mimisbrunnr.Storage.NodeMap

/-!
# Journal pins

The pin of a node covers its journal: its count is the number of entries, its
bounds are the least and the greatest number of an entry. The newest persisted
number is behind no run. The runs are numbered from the oldest to the newest, as
long as there are numbers of 32 bits left for them.
-/

namespace Mimisbrunnr.Storage

set_option autoImplicit false

open Mimisbrunnr.Lib
open Mimisbrunnr.Lib.MachineOrder

def JournalPin.isActive (pin : JournalPin) : Bool := 0 < pin.count

namespace LoadedNode

section

variable {κ ν : Type}

def pendingLsns (node : LoadedNode κ ν) : Set UInt64 :=
  { lsn | ∃ entry ∈ node.pendingJournal, entry.lsn = lsn }

structure PinCovers (node : LoadedNode κ ν) : Prop where
  count : node.pendingJournal.length < 2 ^ 32 → node.pin.count.toNat = node.pendingJournal.length
  active : node.pin.isActive = true ↔ node.pendingJournal ≠ []
  least : node.pendingJournal ≠ [] → IsLeast node.pendingLsns node.pin.lsnMin
  greatest : node.pendingJournal ≠ [] → IsGreatest node.pendingLsns node.pin.lsnMax

def Persisted (node : LoadedNode κ ν) : Prop :=
  ∀ run ∈ node.sortedRuns, run.journalSeq ≤ node.header.lastPersistedLsn

def RunsIncrease (node : LoadedNode κ ν) : Prop :=
  (node.sortedRuns.map SortedRun.seq).Pairwise (· < ·)

def MakesRun (node : LoadedNode κ ν) : Prop :=
  node.pendingJournal ≠ [] ∧ ∀ entry ∈ node.pendingJournal, entry.op.isTombstone = false

/-- A flush that makes a run finds fewer runs than there are numbers. -/
def RunFits (node : LoadedNode κ ν) : NodeCall κ ν → Prop
  | .flushToRun => node.MakesRun → node.sortedRuns.length < 2 ^ 32
  | _ => True

private theorem is_active_iff (pin : JournalPin) : pin.isActive = true ↔ pin.count ≠ 0 := by
  rw [JournalPin.isActive, decide_eq_true_eq, UInt32.lt_iff_toNat_lt, ne_eq, ← UInt32.toNat_inj]
  exact Nat.pos_iff_ne_zero

theorem pin_covers_empty (node : LoadedNode κ ν) (pin : node.pin = JournalPin.default)
    (empty : node.pendingJournal = []) : PinCovers node := by
  constructor
  · intro _
    rw [pin, empty]
    rfl
  · rw [pin, empty]
    exact iff_of_false (by decide) fun some_entry => some_entry rfl
  · intro some_entry
    exact absurd empty some_entry
  · intro some_entry
    exact absurd empty some_entry

private theorem pending_lsns_push (node : LoadedNode κ ν) (entry : JournalEntry κ ν) :
    (node.pushJournal entry).pendingLsns = Insert.insert entry.lsn node.pendingLsns := by
  ext lsn
  constructor
  · intro pending
    obtain ⟨other, listed, same⟩ := pending
    cases List.mem_append.mp listed with
    | inl before => exact Or.inr ⟨other, before, same⟩
    | inr last =>
        rw [List.mem_singleton.mp last] at same
        exact Or.inl same.symm
  · intro either
    cases either with
    | inl new => exact ⟨entry, List.mem_append_right _ (List.mem_singleton.mpr rfl), new.symm⟩
    | inr before =>
        obtain ⟨other, listed, same⟩ := before
        exact ⟨other, List.mem_append_left _ listed, same⟩

private theorem pending_lsns_empty (node : LoadedNode κ ν) (empty : node.pendingJournal = []) :
    node.pendingLsns = ∅ := by
  ext lsn
  rw [pendingLsns, empty]
  simp

private theorem pin_covers_push (node : LoadedNode κ ν) (entry : JournalEntry κ ν)
    (covers : PinCovers node) : PinCovers (node.pushJournal entry) := by
  have active := covers.active
  rw [is_active_iff] at active
  have most : (0xffffffff : UInt32).toNat = 2 ^ 32 - 1 := rfl
  constructor
  · intro few
    have length : (node.pushJournal entry).pendingJournal.length =
        node.pendingJournal.length + 1 := List.length_append
    rw [length] at few ⊢
    have before := covers.count (by omega)
    have room : node.pin.count ≠ 0xffffffff := by
      intro full
      rw [full, most] at before
      omega
    change (node.pin.record entry.lsn).count.toNat = _
    rw [JournalPin.record]
    dsimp only
    rw [if_neg room, UInt32.toNat_add, before]
    exact Nat.mod_eq_of_lt few
  · rw [is_active_iff]
    refine iff_of_true ?_ (by simp [pushJournal])
    change (node.pin.record entry.lsn).count ≠ 0
    rw [JournalPin.record]
    dsimp only
    split
    · next full =>
        rw [full]
        decide
    · next room =>
        rw [ne_eq, ← UInt32.toNat_inj, UInt32.toNat_add]
        rw [← UInt32.toNat_inj, most] at room
        have below := node.pin.count.toNat_lt
        change ¬ (node.pin.count.toNat + 1) % 2 ^ 32 = 0
        omega
  · intro _
    rw [pending_lsns_push]
    change IsLeast _ (node.pin.record entry.lsn).lsnMin
    rw [JournalPin.record]
    dsimp only
    split
    · next none =>
        have empty : node.pendingJournal = [] := by
          by_contra some_entry
          exact active.mpr some_entry none
        rw [pending_lsns_empty node empty, insert_empty_eq]
        exact isLeast_singleton
    · next some_entry =>
        rw [min_comm]
        exact (covers.least (active.mp some_entry)).insert _
  · intro _
    rw [pending_lsns_push]
    change IsGreatest _ (node.pin.record entry.lsn).lsnMax
    rw [JournalPin.record]
    dsimp only
    split
    · next none =>
        have empty : node.pendingJournal = [] := by
          by_contra some_entry
          exact active.mpr some_entry none
        rw [pending_lsns_empty node empty, insert_empty_eq]
        exact isGreatest_singleton
    · next some_entry =>
        rw [max_comm]
        exact (covers.greatest (active.mp some_entry)).insert _

theorem persisted_ge (header : BtreeNodeHeader) (lsn : UInt64) :
    header.lastPersistedLsn ≤ persisted header lsn ∧ lsn ≤ persisted header lsn := by
  rw [persisted]
  split
  · next below => exact ⟨le_of_lt below, le_refl lsn⟩
  · next above => exact ⟨le_refl _, not_lt.mp above⟩

def Numbered (node : LoadedNode κ ν) : Prop :=
  RunsIncrease node →
    (node.sortedRuns.map fun run => run.seq.toNat) = List.range node.sortedRuns.length

theorem next_seq_to_nat (runs : List (SortedRun κ ν))
    (numbered : (runs.map fun run => run.seq.toNat) = List.range runs.length) :
    (nextSeq runs).toNat = runs.length % 2 ^ 32 := by
  have member (number : Nat) :
      (∃ run ∈ runs, run.seq.toNat = number) ↔ number < runs.length := by
    rw [← List.mem_range, ← numbered, List.mem_map]
  rw [nextSeq]
  split
  · next none =>
      have empty : runs = [] := List.map_eq_nil_iff.mp (List.max?_eq_none_iff.mp none)
      rw [empty]
      rfl
  · next seq most =>
      obtain ⟨listed, above⟩ := List.max?_eq_some_iff.mp most
      obtain ⟨run, inside, same⟩ := List.mem_map.mp listed
      have below := (member seq.toNat).mp ⟨run, inside, congrArg UInt32.toNat same⟩
      obtain ⟨last, there, greatest⟩ := (member (runs.length - 1)).mpr (by omega)
      have least := UInt32.le_iff_toNat_le.mp
        (above last.seq (List.mem_map.mpr ⟨last, there, rfl⟩))
      have value : seq.toNat = runs.length - 1 := by omega
      rw [UInt32.toNat_add, value]
      change (runs.length - 1 + 1) % 2 ^ 32 = _
      rw [Nat.sub_add_cancel (by omega)]

/-- A run with the next number comes after all others just when there is such a number. -/
theorem next_seq_increases_iff (node : LoadedNode κ ν) (numbered : Numbered node)
    (increase : RunsIncrease node) :
    (∀ run ∈ node.sortedRuns, run.seq < nextSeq node.sortedRuns) ↔
      node.sortedRuns.length < 2 ^ 32 := by
  have numbers := numbered increase
  have next := next_seq_to_nat node.sortedRuns numbers
  have member (number : Nat) :
      (∃ run ∈ node.sortedRuns, run.seq.toNat = number) ↔ number < node.sortedRuns.length := by
    rw [← List.mem_range, ← numbers, List.mem_map]
  constructor
  · intro above
    by_contra many
    obtain ⟨last, there, greatest⟩ := (member (node.sortedRuns.length - 1)).mpr (by omega)
    have less := UInt32.lt_iff_toNat_lt.mp (above last there)
    have narrow := last.seq.toNat_lt
    rw [next, greatest] at less
    have exact_ : node.sortedRuns.length = 2 ^ 32 := by omega
    rw [exact_] at less
    omega
  · intro few run listed
    have below := (member run.seq.toNat).mp ⟨run, listed, rfl⟩
    rw [UInt32.lt_iff_toNat_lt, next, Nat.mod_eq_of_lt few]
    exact below

structure PinsJournal (node : LoadedNode κ ν) : Prop where
  pin : PinCovers node
  persisted : Persisted node
  runs : RunsIncrease node

/-- What every call keeps, also a flush that has no number left for its run. -/
structure PinInvariant (node : LoadedNode κ ν) : Prop where
  pin : PinCovers node
  persisted : Persisted node
  numbered : Numbered node

/-- A run with a number above all others leaves the runs increasing. -/
theorem runs_increase_append_iff (node after : LoadedNode κ ν) (run : SortedRun κ ν)
    (appended : after.sortedRuns = node.sortedRuns ++ [run])
    (number : run.seq = nextSeq node.sortedRuns) :
    RunsIncrease after ↔
      RunsIncrease node ∧ ∀ other ∈ node.sortedRuns, other.seq < nextSeq node.sortedRuns := by
  rw [RunsIncrease, appended, List.map_append, List.pairwise_append, ← number]
  simp [RunsIncrease]

private theorem push_keeps (node : LoadedNode κ ν) (entry : JournalEntry κ ν)
    (kept : PinInvariant node) : PinInvariant (node.pushJournal entry) :=
  ⟨pin_covers_push node entry kept.pin, kept.persisted, kept.numbered⟩

private theorem new_keeps (kind : BtreeKind) (level regionSizeLog2 : UInt8) :
    PinInvariant (LoadedNode.new kind level regionSizeLog2 : LoadedNode κ ν) ∧
      RunsIncrease (LoadedNode.new kind level regionSizeLog2 : LoadedNode κ ν) := by
  constructor
  · constructor
    · exact pin_covers_empty _ rfl rfl
    · intro run listed
      cases listed
    · intro _
      rfl
  · exact List.Pairwise.nil

variable [LinearOrder κ]

private theorem flush_kept (node : LoadedNode κ ν) (none : ¬ node.MakesRun) :
    node.flushToRun.2 = node := by
  rw [flushToRun]
  split
  · rfl
  · next some_entry =>
      split
      · rfl
      · next plain =>
          exfalso
          apply none
          constructor
          · exact fun empty => some_entry (List.isEmpty_iff.mpr empty)
          · intro entry listed
            rw [← Bool.not_eq_true]
            intro tombstone
            exact plain (List.any_eq_true.mpr ⟨entry, listed, tombstone⟩)

theorem flush_made (node : LoadedNode κ ν) (makes : node.MakesRun) :
    node.flushToRun.2.pendingJournal = [] ∧ node.flushToRun.2.pin = JournalPin.default ∧
      node.flushToRun.2.header.lastPersistedLsn =
        LoadedNode.persisted node.header (maxLsn node.pendingJournal) ∧
      ∃ run, node.flushToRun.2.sortedRuns = node.sortedRuns ++ [run] ∧
        run.seq = nextSeq node.sortedRuns ∧ run.journalSeq = maxLsn node.pendingJournal := by
  have some_entry : ¬ node.pendingJournal.isEmpty = true := by
    rw [List.isEmpty_iff]
    exact makes.1
  have plain : ¬ (node.pendingJournal.any fun entry => entry.op.isTombstone) = true := by
    rw [List.any_eq_true]
    rintro ⟨entry, listed, tombstone⟩
    rw [makes.2 entry listed] at tombstone
    cases tombstone
  rw [flushToRun, if_neg some_entry, if_neg plain]
  exact ⟨rfl, rfl, rfl, _, rfl, rfl, rfl⟩

private theorem flush_keeps (node : LoadedNode κ ν) (kept : PinInvariant node) :
    PinInvariant node.flushToRun.2 ∧ (RunsIncrease node →
      (RunsIncrease node.flushToRun.2 ↔ (node.MakesRun → node.sortedRuns.length < 2 ^ 32))) := by
  by_cases makes : node.MakesRun
  · obtain ⟨empty, pin, header, run, appended, number, newest⟩ := flush_made node makes
    have increase := runs_increase_append_iff node _ run appended number
    constructor
    · constructor
      · exact pin_covers_empty _ pin empty
      · intro other listed
        have bounds := persisted_ge node.header (maxLsn node.pendingJournal)
        rw [appended] at listed
        rw [header]
        cases List.mem_append.mp listed with
        | inl before => exact le_trans (kept.persisted other before) bounds.1
        | inr last =>
            rw [List.mem_singleton.mp last, newest]
            exact bounds.2
      · intro after
        obtain ⟨before, above⟩ := increase.mp after
        have few := (next_seq_increases_iff node kept.numbered before).mp above
        have numbers := kept.numbered before
        have next := next_seq_to_nat node.sortedRuns numbers
        rw [appended, List.map_append, numbers, List.length_append, List.length_singleton,
          List.range_succ, List.map_singleton, number, next, Nat.mod_eq_of_lt few]
    · intro before
      rw [increase, next_seq_increases_iff node kept.numbered before]
      constructor
      · intro both _
        exact both.2
      · intro fits
        exact ⟨before, fits makes⟩
  · rw [flush_kept node makes]
    refine ⟨kept, fun before => iff_of_true before fun made => absurd made makes⟩

private theorem compact_keeps (node : LoadedNode κ ν) :
    PinInvariant node.compact ∧ RunsIncrease node.compact := by
  constructor
  · constructor
    · exact pin_covers_empty _ rfl rfl
    · intro run listed
      rw [compact] at listed ⊢
      dsimp only at listed ⊢
      split at listed
      · cases listed
      · rw [List.mem_singleton.mp listed]
        exact (persisted_ge _ _).2
    · intro _
      rw [compact]
      dsimp only
      split
      · rfl
      · rfl
  · rw [RunsIncrease, compact]
    dsimp only
    split
    · exact List.Pairwise.nil
    · exact List.pairwise_singleton _ _

private theorem lookup_keeps (node : LoadedNode κ ν) (key : κ) (kept : PinInvariant node) :
    PinInvariant (node.lookup key).2 ∧ (node.lookup key).2.sortedRuns = node.sortedRuns := by
  rw [lookup]
  split
  · exact ⟨kept, rfl⟩
  · split
    · exact ⟨kept, rfl⟩
    · have pin : PinCovers { node with mergedView := some node.mergeIter } :=
        ⟨kept.pin.count, kept.pin.active, kept.pin.least, kept.pin.greatest⟩
      exact ⟨⟨pin, kept.persisted, kept.numbered⟩, rfl⟩

private theorem apply_keeps (node : LoadedNode κ ν) (call : NodeCall κ ν)
    (kept : PinInvariant node) :
    PinInvariant (apply node call) ∧
      (RunsIncrease node → (RunsIncrease (apply node call) ↔ RunFits node call)) := by
  cases call with
  | insert lsn key value =>
      exact ⟨push_keeps node _ kept, fun increase => iff_of_true increase trivial⟩
  | remove lsn key =>
      exact ⟨push_keeps node _ kept, fun increase => iff_of_true increase trivial⟩
  | pushJournal entry =>
      exact ⟨push_keeps node entry kept, fun increase => iff_of_true increase trivial⟩
  | flushToRun => exact flush_keeps node kept
  | compact =>
      obtain ⟨after, increases⟩ := compact_keeps node
      exact ⟨after, fun _ => iff_of_true increases trivial⟩
  | lookup key =>
      obtain ⟨after, same⟩ := lookup_keeps node key kept
      refine ⟨after, fun increase => iff_of_true ?_ trivial⟩
      change ((node.lookup key).2.sortedRuns.map SortedRun.seq).Pairwise (· < ·)
      rw [same]
      exact increase

theorem pins_journal_along (kind : BtreeKind) (level regionSizeLog2 : UInt8)
    (calls : List (NodeCall κ ν)) :
    Runs.Throughout apply PinsJournal (LoadedNode.new kind level regionSizeLog2) calls ↔
      Runs.Along apply RunFits (LoadedNode.new kind level regionSizeLog2) calls := by
  obtain ⟨initial, increases⟩ := new_keeps (κ := κ) (ν := ν) kind level regionSizeLog2
  rw [Runs.throughout_iff_along apply PinInvariant (fun _ => True) PinsJournal RunFits _ initial
    (fun node call kept => (apply_keeps node call kept).1)
    (by
      intro node call kept _ _ pins
      obtain ⟨after, increase⟩ := apply_keeps node call kept
      rw [← increase pins.runs]
      exact ⟨fun next => next.runs, fun runs => ⟨after.pin, after.persisted, runs⟩⟩)
    calls (fun _ _ => trivial)]
  exact and_iff_right ⟨initial.pin, initial.persisted, increases⟩

/-- The pin covers the journal in every state of a run, and the runs are numbered in order just
when every flush that makes a run finds a number for it. -/
theorem pins_journal_throughout_iff (kind : BtreeKind) (level regionSizeLog2 : UInt8)
    (calls : List (NodeCall κ ν)) :
    Runs.Throughout apply PinsJournal (LoadedNode.new kind level regionSizeLog2) calls ↔
      Runs.Along apply RunFits (LoadedNode.new kind level regionSizeLog2) calls :=
  pins_journal_along kind level regionSizeLog2 calls

end

def flushedInserts (rounds : Nat) : List (NodeCall Nat Nat) :=
  (List.replicate rounds [NodeCall.insert 1 5 7, NodeCall.flushToRun]).flatten

theorem flushed_inserts_succ (rounds : Nat) :
    flushedInserts (rounds + 1) =
      flushedInserts rounds ++ [NodeCall.insert 1 5 7] ++ [NodeCall.flushToRun] := by
  rw [flushedInserts, flushedInserts, List.replicate_succ', List.flatten_append,
    List.flatten_singleton, List.append_assoc]
  rfl

theorem insert_makes_run (node : LoadedNode Nat Nat) (empty : node.pendingJournal = []) :
    (apply node (.insert 1 5 7)).MakesRun := by
  have journal : (apply node (.insert 1 5 7)).pendingJournal = [⟨1, .insert 5 7⟩] := by
    change node.pendingJournal ++ [_] = _
    rw [empty]
    rfl
  rw [MakesRun, journal]
  refine ⟨List.cons_ne_nil _ _, ?_⟩
  intro entry listed
  rw [List.mem_singleton.mp listed]
  rfl

private theorem flushed_inserts_runs (rounds : Nat) :
    (Runs.run apply (LoadedNode.new .objectTable 0 18) (flushedInserts rounds)).pendingJournal = [] ∧
      (Runs.run apply (LoadedNode.new .objectTable 0 18)
        (flushedInserts rounds)).sortedRuns.length = rounds := by
  induction rounds with
  | zero => exact ⟨rfl, rfl⟩
  | succ rounds ih =>
      rw [flushed_inserts_succ, Runs.run_append, Runs.run_append]
      have makes := insert_makes_run _ ih.1
      obtain ⟨empty, -, -, run, appended, -⟩ := flush_made _ makes
      refine ⟨empty, ?_⟩
      change (LoadedNode.flushToRun _).2.sortedRuns.length = _
      rw [appended, List.length_append]
      exact congrArg (· + 1) ih.2

private theorem not_pins_after_rounds (rounds : Nat) (all : rounds = 2 ^ 32) :
    ¬ Runs.Throughout apply PinsJournal (LoadedNode.new .objectTable 0 18)
      (flushedInserts (rounds + 1)) := by
  intro throughout
  have along := (pins_journal_along _ _ _ _).mp throughout
  obtain ⟨empty, many⟩ := flushed_inserts_runs rounds
  have makes := insert_makes_run _ empty
  have fits := along (flushedInserts rounds ++ [NodeCall.insert 1 5 7]) .flushToRun
    (by rw [← flushed_inserts_succ])
  rw [Runs.run_append] at fits
  have few := fits makes
  change (Runs.run apply _ (flushedInserts rounds)).sortedRuns.length < 2 ^ 32 at few
  omega

/-- The run after the one with the greatest number gets a number that another run has. -/
theorem run_number_repeated :
    ¬ Runs.Throughout apply PinsJournal (LoadedNode.new .objectTable 0 18)
      (flushedInserts (2 ^ 32 + 1)) :=
  not_pins_after_rounds (2 ^ 32) rfl

end LoadedNode

end Mimisbrunnr.Storage
