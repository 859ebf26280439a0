import Mimisbrunnr.Engine.State
import Mimisbrunnr.Lib.Runs

/-!
# Runs of the hybrid clock

Every call of `now` moves the clock on, unless the logical counter is at its limit
and the physical reading is not ahead: then the clock returns its last timestamp
again. In a run in which no call of `now` meets that, the timestamps rise and lie
after every remote one observed before.
-/

namespace Mimisbrunnr

set_option autoImplicit false

open Mimisbrunnr.Lib
open Mimisbrunnr.Types

namespace Types.HybridTimestamp

def recv (last : HybridTimestamp) (nowNs : Int64) (other : HybridTimestamp) : HybridTimestamp :=
  if last.physicalNs < nowNs ∧ other.physicalNs < nowNs then
    { last with
      physicalNs := nowNs
      logical := 0 }
  else if last.physicalNs = other.physicalNs then
    { last with logical := saturatingAdd16 (max last.logical other.logical) 1 }
  else if last.physicalNs < other.physicalNs then
    { last with
      physicalNs := other.physicalNs
      logical := saturatingAdd16 other.logical 1 }
  else { last with logical := saturatingAdd16 last.logical 1 }

def cmp (left right : HybridTimestamp) : Ordering :=
  (compareOfLessAndEq left.physicalNs right.physicalNs).then
    ((compareOfLessAndEq left.logical right.logical).then
      (compareOfLessAndEq left.nodeId right.nodeId))

instance : LT HybridTimestamp := { lt := fun left right => left.cmp right = .lt }

instance (left right : HybridTimestamp) : Decidable (left < right) :=
  inferInstanceAs (Decidable (left.cmp right = .lt))

def Before (left right : HybridTimestamp) : Prop :=
  left.physicalNs < right.physicalNs ∨
    left.physicalNs = right.physicalNs ∧ left.logical < right.logical

def NotAfter (left right : HybridTimestamp) : Prop :=
  left.physicalNs < right.physicalNs ∨
    left.physicalNs = right.physicalNs ∧ left.logical ≤ right.logical

theorem lt_of_before (left right : HybridTimestamp) (before : left.Before right) : left < right := by
  change left.cmp right = .lt
  unfold cmp
  cases before with
  | inl physical =>
      rw [compareOfLessAndEq, if_pos physical]
      rfl
  | inr logical =>
      have same : compareOfLessAndEq left.physicalNs right.physicalNs = .eq := by
        rw [logical.1, compareOfLessAndEq, if_neg Int64.lt_irrefl, if_pos rfl]
      rw [same, Ordering.then, compareOfLessAndEq, if_pos logical.2]
      rfl

private theorem not_after_of_before (left right : HybridTimestamp) (before : left.Before right) :
    left.NotAfter right := by
  cases before with
  | inl physical => exact Or.inl physical
  | inr logical => exact Or.inr ⟨logical.1, UInt16.le_of_lt logical.2⟩

theorem before_of_not_after (left middle right : HybridTimestamp) (first : left.NotAfter middle)
    (second : middle.Before right) : left.Before right := by
  unfold NotAfter at first
  unfold Before at *
  simp only [Int64.lt_iff_toInt_lt, ← Int64.toInt_inj, UInt16.le_iff_toNat_le,
    UInt16.lt_iff_toNat_lt] at *
  omega

theorem saturating_succ (counter : UInt16) :
    (saturatingAdd16 counter 1).toNat = min (counter.toNat + 1) 65535 := by
  have small := counter.toNat_lt
  have one : (1 : UInt16).toNat = 1 := rfl
  unfold saturatingAdd16
  by_cases fits : counter.toNat + (1 : UInt16).toNat < 2 ^ 16
  · rw [if_pos fits, UInt16.toNat_add, Nat.mod_eq_of_lt fits, one]
    omega
  · rw [if_neg fits]
    have limit : (65535 : UInt16).toNat = 65535 := rfl
    omega

private theorem max_to_nat (left right : UInt16) :
    (max left right).toNat = max left.toNat right.toNat := by
  change (if left ≤ right then right else left).toNat = _
  by_cases le : left ≤ right
  · rw [if_pos le, Nat.max_eq_right (UInt16.le_iff_toNat_le.mp le)]
  · rw [if_neg le]
    rw [UInt16.le_iff_toNat_le] at le
    rw [Nat.max_eq_left (by omega)]

theorem not_after_recv (last : HybridTimestamp) (nowNs : Int64) (other : HybridTimestamp) :
    last.NotAfter (last.recv nowNs other) ∧ other.NotAfter (last.recv nowNs other) := by
  have bound := last.logical.toNat_lt
  have bound' := other.logical.toNat_lt
  unfold recv NotAfter
  by_cases ahead : last.physicalNs < nowNs ∧ other.physicalNs < nowNs
  · rw [if_pos ahead]
    exact ⟨Or.inl ahead.1, Or.inl ahead.2⟩
  · rw [if_neg ahead]
    by_cases same : last.physicalNs = other.physicalNs
    · rw [if_pos same]
      simp only [UInt16.le_iff_toNat_le, saturating_succ, max_to_nat]
      constructor
      · exact Or.inr ⟨trivial, by omega⟩
      · exact Or.inr ⟨same.symm, by omega⟩
    · rw [if_neg same]
      by_cases later : last.physicalNs < other.physicalNs
      · rw [if_pos later]
        simp only [UInt16.le_iff_toNat_le, saturating_succ]
        constructor
        · exact Or.inl later
        · exact Or.inr ⟨trivial, by omega⟩
      · rw [if_neg later]
        have earlier : other.physicalNs < last.physicalNs := by
          rw [Int64.lt_iff_toInt_lt] at later ⊢
          have apart : last.physicalNs.toInt ≠ other.physicalNs.toInt := fun equal =>
            same (Int64.toInt_inj.mp equal)
          omega
        simp only [UInt16.le_iff_toNat_le, saturating_succ]
        constructor
        · exact Or.inr ⟨trivial, by omega⟩
        · exact Or.inl earlier

private theorem before_tick_iff (last : HybridTimestamp) (nowNs : Int64) :
    last.Before (last.tick nowNs) ↔ last.physicalNs < nowNs ∨ last.logical < 65535 := by
  have bound := last.logical.toNat_lt
  have limit : (65535 : UInt16).toNat = 65535 := rfl
  unfold tick Before
  by_cases ahead : last.physicalNs < nowNs
  · rw [if_pos ahead]
    exact iff_of_true (Or.inl ahead) (Or.inl ahead)
  · rw [if_neg ahead]
    simp only [UInt16.lt_iff_toNat_lt, saturating_succ, ahead, Int64.lt_irrefl, true_and, false_or]
    omega

end Types.HybridTimestamp

namespace HybridClock

def observe (clock : HybridClock) (remote : HybridTimestamp) (reading : Option Int64) :
    HybridClock :=
  { clock with
    last := { clock.last.recv (clock.nowNs reading) remote with nodeId := clock.nodeId } }

end HybridClock

/-- A call with the reading of the system clock it meets. -/
inductive ClockCall where
  | now (reading : Option Int64)
  | observe (remote : HybridTimestamp) (reading : Option Int64)
deriving DecidableEq, Repr

namespace ClockCall

def step (clock : HybridClock) : ClockCall → HybridClock
  | now reading => (clock.now reading).2
  | observe remote reading => clock.observe remote reading

/-- The timestamps that the calls of `now` return. -/
def issued (clock : HybridClock) : List ClockCall → List HybridTimestamp
  | [] => []
  | now reading :: rest => (clock.now reading).1 :: issued (clock.now reading).2 rest
  | observe remote reading :: rest => issued (clock.observe remote reading) rest

def Advances (clock : HybridClock) : ClockCall → Prop
  | now reading => clock.last.physicalNs < clock.nowNs reading ∨ clock.last.logical < 65535
  | observe _ _ => True

end ClockCall

namespace HybridClock

private theorem last_now (clock : HybridClock) (reading : Option Int64) :
    (clock.now reading).2.last = (clock.now reading).1 := rfl

/-- A call of `now` moves on just when it can. -/
theorem before_now_iff (clock : HybridClock) (reading : Option Int64) :
    clock.last.Before (clock.now reading).1 ↔ (ClockCall.now reading).Advances clock :=
  HybridTimestamp.before_tick_iff clock.last (clock.nowNs reading)

theorem not_after_observe (clock : HybridClock) (remote : HybridTimestamp)
    (reading : Option Int64) :
    clock.last.NotAfter (clock.observe remote reading).last ∧
      remote.NotAfter (clock.observe remote reading).last :=
  HybridTimestamp.not_after_recv clock.last (clock.nowNs reading) remote

theorem before_issued (calls : List ClockCall) :
    ∀ clock, Runs.Along ClockCall.step (fun clock call => call.Advances clock) clock calls →
      ∀ stamp ∈ ClockCall.issued clock calls, clock.last.Before stamp := by
  induction calls with
  | nil =>
      intro clock _ stamp listed
      cases listed
  | cons call rest ih =>
      intro clock along stamp listed
      rw [Runs.along_cons_iff] at along
      cases call with
      | now reading =>
          have moved := (before_now_iff clock reading).mpr along.1
          cases List.mem_cons.mp listed with
          | inl first =>
              rw [first]
              exact moved
          | inr later =>
              have after := ih (clock.now reading).2 along.2 stamp later
              rw [last_now] at after
              exact HybridTimestamp.before_of_not_after _ _ _
                (HybridTimestamp.not_after_of_before _ _ moved) after
      | observe remote reading =>
          exact HybridTimestamp.before_of_not_after _ _ _
            (not_after_observe clock remote reading).1
            (ih (clock.observe remote reading) along.2 stamp listed)

private theorem issued_increasing (calls : List ClockCall) :
    ∀ clock, Runs.Along ClockCall.step (fun clock call => call.Advances clock) clock calls →
      (ClockCall.issued clock calls).Pairwise (· < ·) := by
  induction calls with
  | nil =>
      intro clock _
      exact List.Pairwise.nil
  | cons call rest ih =>
      intro clock along
      rw [Runs.along_cons_iff] at along
      cases call with
      | now reading =>
          apply List.Pairwise.cons
          · intro stamp later
            exact HybridTimestamp.lt_of_before _ _
              (before_issued rest (clock.now reading).2 along.2 stamp later)
          · exact ih (clock.now reading).2 along.2
      | observe remote reading => exact ih (clock.observe remote reading) along.2

private theorem observed_before_issued (earlier : List ClockCall) :
    ∀ clock remote reading later,
      Runs.Along ClockCall.step (fun clock call => call.Advances clock) clock
        (earlier ++ .observe remote reading :: later) →
      ∀ stamp ∈ ClockCall.issued
        (Runs.run ClockCall.step clock (earlier ++ [.observe remote reading])) later,
        remote < stamp := by
  induction earlier with
  | nil =>
      intro clock remote reading later along stamp listed
      rw [List.nil_append, Runs.along_cons_iff] at along
      have after := before_issued later (clock.observe remote reading) along.2 stamp listed
      exact HybridTimestamp.lt_of_before _ _ (HybridTimestamp.before_of_not_after _ _ _
        (not_after_observe clock remote reading).2 after)
  | cons call earlier ih =>
      intro clock remote reading later along
      rw [List.cons_append, Runs.along_cons_iff] at along
      exact ih (call.step clock) remote reading later along.2

/-- In a run in which every call of `now` finds a reading ahead or room in the counter, the
timestamps rise, and those after an observation lie after what was observed. -/
theorem clock_rises (clock : HybridClock) (calls : List ClockCall)
    (advances : Runs.Along ClockCall.step (fun clock call => call.Advances clock) clock calls) :
    (ClockCall.issued clock calls).Pairwise (· < ·) ∧
      ∀ earlier remote reading later, calls = earlier ++ .observe remote reading :: later →
        ∀ stamp ∈ ClockCall.issued
          (Runs.run ClockCall.step clock (earlier ++ [.observe remote reading])) later,
          remote < stamp := by
  constructor
  · exact issued_increasing calls clock advances
  · intro earlier remote reading later parts
    rw [parts] at advances
    exact observed_before_issued earlier clock remote reading later advances

/-- A clock that falls back, a remote timestamp ahead of it, and a counter with room. -/
theorem clock_rises_after_remote :
    let remote : HybridTimestamp := { physicalNs := 100, logical := 7, nodeId := 2 }
    let calls : List ClockCall := [.now (some 40), .now (some 30), .observe remote (some 20),
      .now (some 20), .now none]
    ClockCall.issued (HybridClock.new 1) calls =
        [{ physicalNs := 40, logical := 0, nodeId := 1 },
          { physicalNs := 40, logical := 1, nodeId := 1 },
          { physicalNs := 100, logical := 9, nodeId := 1 },
          { physicalNs := 100, logical := 10, nodeId := 1 }] ∧
      (ClockCall.issued (HybridClock.new 1) calls).Pairwise (· < ·) := by
  intro remote calls
  have advances : Runs.Along ClockCall.step (fun clock call => call.Advances clock)
      (HybridClock.new 1) calls := by
    rw [Runs.along_cons_iff, Runs.along_cons_iff, Runs.along_cons_iff, Runs.along_cons_iff,
      Runs.along_cons_iff]
    exact ⟨Or.inr (by decide), Or.inr (by decide), trivial, Or.inr (by decide),
      Or.inr (by decide), Runs.along_nil _ _ _⟩
  exact ⟨by decide, (clock_rises (HybridClock.new 1) calls advances).1⟩

/-- A remote timestamp at the limit of the counter: the clock repeats one that is not even after
the remote one. -/
theorem clock_stalls_at_limit :
    let remote : HybridTimestamp := { physicalNs := 100, logical := 65535, nodeId := 2 }
    let calls : List ClockCall := [.observe remote (some 50), .now (some 50), .now (some 50)]
    let stamp : HybridTimestamp := { physicalNs := 100, logical := 65535, nodeId := 1 }
    ClockCall.issued (HybridClock.new 1) calls = [stamp, stamp] ∧ ¬ stamp < stamp ∧
      ¬ remote < stamp := by
  decide

end HybridClock

end Mimisbrunnr
