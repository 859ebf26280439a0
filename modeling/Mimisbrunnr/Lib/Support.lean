import Mathlib.Data.Set.Basic
import Mathlib.Tactic.Tauto

/-!
# Held elements and their support

A collection holds elements. Some are put in directly; a direct element brings
with it what it implies, and when it is taken out again, what nothing direct
implies any more goes too. A list of such operations is played on the collection
it has produced. The replay ends where it started, unless it takes an element
for direct, or for implied, against what the first run and its end say.
-/

namespace Mimisbrunnr.Lib.Support

set_option autoImplicit false

variable {α : Type}

structure Holding (α : Type) where
  direct : Set α
  held : Set α

inductive Op (α : Type) where
  | add (a : α)
  | remove (a : α)
  | clear

section

variable (implies : α → α → Prop)

/-- What an element implies includes the element, and all that those imply. -/
structure Closed : Prop where
  self : ∀ a x, implies a x → implies a a
  trans : ∀ a x y, implies a x → implies x y → implies a y

def Supported (direct : Set α) (x : α) : Prop := ∃ d ∈ direct, d = x ∨ implies d x

/-- A held element that is implied only stays so when it is added. -/
def step (h : Holding α) : Op α → Holding α
  | .add a =>
      { direct := {x | x ∈ h.direct ∨ x = a ∧ implies a a ∧ a ∉ h.held}
        held := {x | x ∈ h.held ∨ implies a x} }
  | .remove a =>
      { direct := {x | x ∈ h.direct ∧ x ≠ a}
        held := {x | x ∈ h.held ∧ x ≠ a ∧ Supported implies {d | d ∈ h.direct ∧ d ≠ a} x} }
  | .clear => { direct := ∅, held := ∅ }

def run (h : Holding α) (ops : List (Op α)) : Holding α := ops.foldl (step implies) h

structure Settled (h : Holding α) : Prop where
  direct : ∀ x ∈ h.direct, x ∈ h.held
  supported : ∀ x ∈ h.held, Supported implies h.direct x

/-- The operation may change whether the element is held. -/
def Touches (x : α) : Op α → Prop
  | .add a => implies a x
  | .remove a => a = x
  | .clear => True

/-- The replay takes the added element for direct, or not, as the first run does or as its end. -/
def KeepsOrigin (live replayed final : Holding α) : Op α → Prop
  | .add a =>
      ¬ (a ∈ live.held ∧ a ∉ live.direct ∧ a ∉ replayed.held ∧ a ∉ final.direct) ∧
        ¬ (a ∉ live.held ∧ a ∈ replayed.held ∧ a ∉ replayed.direct ∧ a ∈ final.direct)
  | _ => True

/-- Every operation, in the run and in the replay beside it. -/
def KeepsOrigins (final : Holding α) : List (Op α) → Holding α → Holding α → Prop
  | [], _, _ => True
  | op :: rest, live, replayed =>
      KeepsOrigin live replayed final op ∧
        KeepsOrigins final rest (step implies live op) (step implies replayed op)

/-- The replay agrees, element by element, with the first run or with its end. -/
structure Follows (live replayed final : Holding α) (ops : List (Op α)) : Prop where
  direct : ∀ x, (x ∈ replayed.direct ↔ x ∈ live.direct) ∨ (x ∈ replayed.direct ↔ x ∈ final.direct)
  held : ∀ x, (∃ op ∈ ops, Touches implies x op) ∨ (x ∈ replayed.held ↔ x ∈ live.held) ∨
    (x ∈ replayed.held ↔ x ∈ final.held)

variable {implies}

theorem settled_step (closed : Closed implies) (h : Holding α) (op : Op α)
    (settled : Settled implies h) : Settled implies (step implies h op) := by
  cases op with
  | clear => exact ⟨fun x member => member.elim, fun x member => member.elim⟩
  | remove a =>
      constructor
      · intro x member
        exact ⟨settled.direct x member.1, member.2, x, member, Or.inl rfl⟩
      · intro x member
        exact member.2.2
  | add a =>
      constructor
      · intro x member
        cases member with
        | inl old => exact Or.inl (settled.direct x old)
        | inr new =>
            obtain ⟨same, self, -⟩ := new
            rw [same]
            exact Or.inr self
      · intro x member
        have grown (h : Holding α) (supported : Supported implies h.direct x) :
            Supported implies (step implies h (.add a)).direct x :=
          supported.imp fun d both => ⟨Or.inl both.1, both.2⟩
        cases member with
        | inl old => exact grown h (settled.supported x old)
        | inr implied =>
            by_cases present : a ∈ h.held
            · apply grown h
              obtain ⟨d, direct, leads⟩ := settled.supported a present
              refine ⟨d, direct, Or.inr ?_⟩
              cases leads with
              | inl same =>
                  rw [same]
                  exact implied
              | inr leads => exact closed.trans d a x leads implied
            · exact ⟨a, Or.inr ⟨rfl, closed.self a x implied, present⟩, Or.inr implied⟩

theorem settled_run (closed : Closed implies) (ops : List (Op α)) :
    ∀ h : Holding α, Settled implies h → Settled implies (run implies h ops) := by
  induction ops with
  | nil =>
      intro h settled
      exact settled
  | cons op rest ih =>
      intro h settled
      exact ih _ (settled_step closed h op settled)

theorem added_of_direct (ops : List (Op α)) :
    ∀ (h : Holding α) (x : α), x ∈ (run implies h ops).direct → x ∉ h.direct →
      .add x ∈ ops ∧ implies x x := by
  induction ops with
  | nil =>
      intro h x now before
      exact absurd now before
  | cons op rest ih =>
      intro h x now before
      by_cases next : x ∈ (step implies h op).direct
      · cases op with
        | clear => exact next.elim
        | remove a => exact absurd next.1 before
        | add a =>
            cases next with
            | inl old => exact absurd old before
            | inr new =>
                obtain ⟨same, self, -⟩ := new
                rw [same]
                exact ⟨List.mem_cons_self, self⟩
      · obtain ⟨member, self⟩ := ih _ x now next
        exact ⟨List.mem_cons_of_mem op member, self⟩

theorem supporter_before (ops : List (Op α)) (h : Holding α) (x d : α)
    (untouched : ∀ op ∈ ops, ¬ Touches implies x op) (direct : d ∈ (run implies h ops).direct)
    (supports : d = x ∨ implies d x) : d ∈ h.direct := by
  by_contra absent
  obtain ⟨added, self⟩ := added_of_direct ops h d direct absent
  apply untouched _ added
  cases supports with
  | inl same => exact same ▸ self
  | inr leads => exact leads

/-- An element that a run does not touch is swept as soon as its support is gone. -/
theorem held_after_untouched (closed : Closed implies) (ops : List (Op α)) (x : α) :
    ∀ h : Holding α, Settled implies h → (∀ op ∈ ops, ¬ Touches implies x op) →
      (x ∈ (run implies h ops).held ↔
        x ∈ h.held ∧ Supported implies (run implies h ops).direct x) := by
  induction ops with
  | nil =>
      intro h settled _
      exact ⟨fun member => ⟨member, settled.supported x member⟩, fun both => both.1⟩
  | cons op rest ih =>
      intro h settled untouched
      have here := untouched op List.mem_cons_self
      have later : ∀ next ∈ rest, ¬ Touches implies x next :=
        fun next member => untouched next (List.mem_cons_of_mem op member)
      have after := ih (step implies h op) (settled_step closed h op settled) later
      refine after.trans (and_congr_left fun supported => ?_)
      cases op with
      | clear => exact absurd trivial here
      | add a => exact or_iff_left here
      | remove a =>
          have kept : Supported implies (step implies h (.remove a)).direct x :=
            supported.imp fun d both =>
              ⟨supporter_before rest _ x d later both.1 both.2, both.2⟩
          exact ⟨fun member => member.1, fun member => ⟨member, Ne.symm here, kept⟩⟩

theorem direct_follows (live replayed final : Holding α) (op : Op α)
    (settledLive : Settled implies live) (settledReplayed : Settled implies replayed)
    (keeps : KeepsOrigin live replayed final op)
    (direct : ∀ x, (x ∈ replayed.direct ↔ x ∈ live.direct) ∨
      (x ∈ replayed.direct ↔ x ∈ final.direct)) :
    ∀ x, (x ∈ (step implies replayed op).direct ↔ x ∈ (step implies live op).direct) ∨
      (x ∈ (step implies replayed op).direct ↔ x ∈ final.direct) := by
  intro x
  have before := direct x
  cases op with
  | clear => exact Or.inl Iff.rfl
  | remove a =>
      by_cases same : x = a
      · exact Or.inl ⟨fun member => absurd same member.2, fun member => absurd same member.2⟩
      · exact before.imp (fun equal => and_congr_left fun _ => equal)
          fun equal => (and_iff_left same).trans equal
  | add a =>
      by_cases new : x = a ∧ implies a a
      case neg =>
        have kept (h : Holding α) : x ∈ (step implies h (.add a)).direct ↔ x ∈ h.direct :=
          or_iff_left fun added => new ⟨added.1, added.2.1⟩
        rw [kept, kept]
        exact before
      obtain ⟨rfl, self⟩ := new
      have grown (h : Holding α) :
          x ∈ (step implies h (.add x)).direct ↔ x ∈ h.direct ∨ x ∉ h.held :=
        or_congr Iff.rfl ⟨fun added => added.2.2, fun absent => ⟨rfl, self, absent⟩⟩
      rw [grown, grown]
      have first := settledLive.direct x
      have second := settledReplayed.direct x
      have origin : ¬ (x ∈ live.held ∧ x ∉ live.direct ∧ x ∉ replayed.held ∧ x ∉ final.direct) ∧
        ¬ (x ∉ live.held ∧ x ∈ replayed.held ∧ x ∉ replayed.direct ∧ x ∈ final.direct) := keeps
      tauto

/-- Elements are swept alike, or as they are in the end. -/
theorem held_follows (closed : Closed implies) (live replayed : Holding α) (op : Op α)
    (rest : List (Op α)) (settledLive : Settled implies live)
    (direct : ∀ x, (x ∈ (step implies replayed op).direct ↔ x ∈ (step implies live op).direct) ∨
      (x ∈ (step implies replayed op).direct ↔ x ∈ (run implies live (op :: rest)).direct))
    (held : ∀ x, (∃ other ∈ op :: rest, Touches implies x other) ∨
      (x ∈ replayed.held ↔ x ∈ live.held) ∨
      (x ∈ replayed.held ↔ x ∈ (run implies live (op :: rest)).held)) (x : α) :
    (∃ other ∈ rest, Touches implies x other) ∨
      (x ∈ (step implies replayed op).held ↔ x ∈ (step implies live op).held) ∨
      (x ∈ (step implies replayed op).held ↔ x ∈ (run implies live (op :: rest)).held) := by
  by_cases later : ∃ other ∈ rest, Touches implies x other
  · exact Or.inl later
  apply Or.inr
  by_cases here : Touches implies x op
  · -- both runs do the same to an element the operation touches
    apply Or.inl
    cases op with
    | clear => exact Iff.rfl
    | add a => exact ⟨fun _ => Or.inr here, fun _ => Or.inr here⟩
    | remove a =>
        exact ⟨fun member => absurd here.symm member.2.1, fun member => absurd here.symm member.2.1⟩
  have untouched : ∀ other ∈ rest, ¬ Touches implies x other :=
    fun other member touched => later ⟨other, member, touched⟩
  have before : (x ∈ replayed.held ↔ x ∈ live.held) ∨
      (x ∈ replayed.held ↔ x ∈ (run implies live (op :: rest)).held) := by
    cases held x with
    | inl touched =>
        obtain ⟨other, member, touched⟩ := touched
        cases List.mem_cons.mp member with
        | inl same => exact absurd (same ▸ touched) here
        | inr behind => exact absurd touched (untouched other behind)
    | inr equal => exact equal
  have settledNext := settled_step closed live op settledLive
  have ending := held_after_untouched closed rest x (step implies live op) settledNext untouched
  have earlier (d : α) (direct : d ∈ (run implies live (op :: rest)).direct)
      (supports : d = x ∨ implies d x) : d ∈ (step implies live op).direct :=
    supporter_before rest _ x d untouched direct supports
  change x ∈ (run implies live (op :: rest)).held ↔
    _ ∧ Supported implies (run implies live (op :: rest)).direct x at ending
  cases op with
  | clear => exact absurd trivial here
  | add a =>
      have kept (h : Holding α) : x ∈ (step implies h (.add a)).held ↔ x ∈ h.held :=
        or_iff_left here
      rw [kept, kept]
      exact before
  | remove a =>
      have swept (h : Holding α) : x ∈ (step implies h (.remove a)).held ↔
          x ∈ h.held ∧ Supported implies (step implies h (.remove a)).direct x :=
        ⟨fun member => ⟨member.1, member.2.2⟩, fun both => ⟨both.1, Ne.symm here, both.2⟩⟩
      rw [swept live] at ending
      rw [swept live, swept replayed]
      -- a supporter of the end supports all three states, one of the replay the live state
      have last : Supported implies (run implies live (.remove a :: rest)).direct x →
          Supported implies (step implies live (.remove a)).direct x ∧
            Supported implies (step implies replayed (.remove a)).direct x := by
        intro supported
        obtain ⟨d, final, supports⟩ := supported
        have liveDirect := earlier d final supports
        have replayedDirect : d ∈ (step implies replayed (.remove a)).direct :=
          (direct d).elim (fun equal => equal.mpr liveDirect) fun equal => equal.mpr final
        exact ⟨⟨d, liveDirect, supports⟩, d, replayedDirect, supports⟩
      have middle : Supported implies (step implies replayed (.remove a)).direct x →
          Supported implies (step implies live (.remove a)).direct x := by
        intro supported
        obtain ⟨d, replayedDirect, supports⟩ := supported
        refine ⟨d, ?_, supports⟩
        cases direct d with
        | inl equal => exact equal.mp replayedDirect
        | inr equal => exact earlier d (equal.mp replayedDirect) supports
      tauto

theorem follows_step (closed : Closed implies) (live replayed : Holding α) (op : Op α)
    (rest : List (Op α)) (settledLive : Settled implies live)
    (settledReplayed : Settled implies replayed)
    (keeps : KeepsOrigin live replayed (run implies live (op :: rest)) op)
    (follows : Follows implies live replayed (run implies live (op :: rest))
      (op :: rest)) :
    Follows implies (step implies live op) (step implies replayed op)
      (run implies live (op :: rest)) rest := by
  have direct := direct_follows live replayed _ op settledLive settledReplayed keeps follows.direct
  exact ⟨direct, held_follows closed live replayed op rest settledLive direct follows.held⟩

theorem follows_run (closed : Closed implies) (ops : List (Op α)) :
    ∀ live replayed : Holding α, Settled implies live → Settled implies replayed →
      KeepsOrigins implies (run implies live ops) ops live replayed →
      Follows implies live replayed (run implies live ops) ops →
      run implies replayed ops = run implies live ops := by
  induction ops with
  | nil =>
      intro live replayed _ _ _ follows
      have direct : replayed.direct = live.direct :=
        Set.ext fun x => (follows.direct x).elim id id
      have held : replayed.held = live.held :=
        Set.ext fun x => (follows.held x).elim
          (fun touched => by
            obtain ⟨op, member, -⟩ := touched
            cases member)
          fun equal => equal.elim id id
      cases replayed
      cases direct
      cases held
      rfl
  | cons op rest ih =>
      intro live replayed settledLive settledReplayed keeps follows
      exact ih _ _ (settled_step closed live op settledLive)
        (settled_step closed replayed op settledReplayed) keeps.2
        (follows_step closed live replayed op rest settledLive settledReplayed keeps.1 follows)

/-- Played again on what they have produced, operations that keep the origins change nothing. -/
theorem replay_unchanged (closed : Closed implies) (ops : List (Op α)) (start : Holding α)
    (settled : Settled implies start)
    (keeps : KeepsOrigins implies (run implies start ops) ops start
      (run implies start ops)) :
    run implies (run implies start ops) ops = run implies start ops := by
  apply follows_run closed ops start _ settled (settled_run closed ops start settled) keeps
  exact ⟨fun x => Or.inr Iff.rfl, fun x => Or.inr (Or.inr Iff.rfl)⟩

end

end Mimisbrunnr.Lib.Support
