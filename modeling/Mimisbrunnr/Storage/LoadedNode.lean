import Mimisbrunnr.Lib.BinarySearch
import Mimisbrunnr.Lib.SortedEntries
import Mimisbrunnr.Lib.StableMerge
import Mimisbrunnr.Storage.Btree

/-!
# Nodes in memory

A node holds sorted runs, the changes since the last run was made, and the merged
view of both once a lookup has needed it. Whatever is flushed, compacted or looked
up in between, the node holds the map that its inserts and removes have made.
-/

namespace Mimisbrunnr.Storage

set_option autoImplicit false

open Mimisbrunnr.Lib
open Mimisbrunnr.Lib.FiniteMap

def JournalPin.record (pin : JournalPin) (lsn : UInt64) : JournalPin :=
  { lsnMin := if pin.count = 0 then lsn else min pin.lsnMin lsn
    lsnMax := if pin.count = 0 then lsn else max pin.lsnMax lsn
    count := if pin.count = 0xffffffff then pin.count else pin.count + 1 }

def btreeNodeFlagCompactionInProgress : UInt8 := 1

section

variable {κ ν : Type} [LinearOrder κ]

def JournalOp.isTombstone : JournalOp κ ν → Bool
  | insert _ _ => false
  | remove _ => true
  | whiteout _ => true

namespace LoadedNode

def pushJournal (node : LoadedNode κ ν) (entry : JournalEntry κ ν) : LoadedNode κ ν :=
  { node with
    pin := node.pin.record entry.lsn
    pendingJournal := node.pendingJournal ++ [entry]
    dirty := true
    mergedView := none }

def insert (node : LoadedNode κ ν) (lsn : UInt64) (key : κ) (value : ν) : LoadedNode κ ν :=
  node.pushJournal { lsn := lsn, op := .insert key value }

def remove (node : LoadedNode κ ν) (lsn : UInt64) (key : κ) : LoadedNode κ ν :=
  node.pushJournal { lsn := lsn, op := .remove key }

/-- What the first entry for a key says, in a journal with the newest entry first. -/
def journalAnswer (key : κ) : List (JournalEntry κ ν) → Option (Option ν)
  | [] => none
  | entry :: rest => if entry.op.key = key then some entry.op.value? else journalAnswer key rest

/-- The value of a key, and the node with the merged view that the lookup may have built. -/
def lookup (node : LoadedNode κ ν) (key : κ) : Option ν × LoadedNode κ ν :=
  match journalAnswer key node.pendingJournal.reverse with
  | some answer => (answer, node)
  | none =>
      match node.mergedView with
      | some view => (BinarySearch.search view key, node)
      | none =>
          (BinarySearch.search node.mergeIter key, { node with mergedView := some node.mergeIter })

def range (node : LoadedNode κ ν) (lo hi : κ) : List (κ × ν) :=
  node.mergeIter.filter fun entry => lo ≤ entry.1 ∧ entry.1 < hi

/-- The inserts of a journal, the last one for each key. -/
def byKey (journal : List (JournalEntry κ ν)) : FMap κ ν :=
  journal.foldl
    (fun m entry =>
      match entry.op with
      | .insert key value => m.insert key value
      | _ => m)
    ∅

def maxLsn (journal : List (JournalEntry κ ν)) : UInt64 :=
  journal.foldl (fun highest entry => if highest < entry.lsn then entry.lsn else highest) 0

def nextSeq (runs : List (SortedRun κ ν)) : UInt32 :=
  match (runs.map SortedRun.seq).max? with
  | none => 0
  | some seq => seq + 1

def persisted (header : BtreeNodeHeader) (lsn : UInt64) : UInt64 :=
  if header.lastPersistedLsn < lsn then lsn else header.lastPersistedLsn

def flushToRun (node : LoadedNode κ ν) : Except StorageError Unit × LoadedNode κ ν :=
  if node.pendingJournal.isEmpty then (.ok (), node)
  else if node.pendingJournal.any fun entry => entry.op.isTombstone then
    (.error (.cborEncode "flush_to_run: tombstones require compact() until BTREE5"), node)
  else
    let lsn := maxLsn node.pendingJournal
    let run := SortedRun.fromSorted (nextSeq node.sortedRuns) lsn
      (toSorted (byKey node.pendingJournal))
    let runs := node.sortedRuns ++ [run]
    (.ok (),
      { header :=
          { node.header with
            sortedRunCount := UInt8.ofNat runs.length
            lastPersistedLsn := persisted node.header lsn }
        sortedRuns := runs
        mergedView := none
        pendingJournal := []
        dirty := true
        pin := JournalPin.default })

def compact (node : LoadedNode κ ν) : LoadedNode κ ν :=
  let merged := node.mergeIter
  let lsn := ((node.pendingJournal.map JournalEntry.lsn ++
    node.sortedRuns.map SortedRun.journalSeq).max?).getD 0
  { header :=
      { node.header with
        seq := node.header.seq + 1
        flags := node.header.flags &&& ~~~btreeNodeFlagCompactionInProgress
        sortedRunCount := if merged.isEmpty then 0 else 1
        payloadUsed := 0
        lastPersistedLsn := persisted node.header lsn }
    sortedRuns := if merged.isEmpty then [] else [SortedRun.fromSorted 0 lsn merged]
    mergedView := none
    pendingJournal := []
    dirty := true
    pin := JournalPin.default }

end LoadedNode

end

end Mimisbrunnr.Storage
