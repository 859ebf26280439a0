import Mathlib.Data.Finset.Card
import Mathlib.Data.Finset.Insert
import Mathlib.Logic.Relation

/-!
# Breadth-first exploration with a visited set

A queue, a visited set and an accumulator that is told of every newly visited
element. The loop takes its number of rounds as an argument; over a finite
universe closed under successors, as many rounds as the universe has elements
empty the queue, and then the visited set is exactly the set of elements
reachable from the seeds. The second loop stops as soon as it meets a target.
-/

namespace Mimisbrunnr.Lib.Worklist

set_option autoImplicit false

open Relation

variable {α : Type*} {β : Type*} [DecidableEq α]

structure Frontier (α : Type*) (β : Type*) where
  queue : List α
  visited : Finset α
  acc : β

/-- A new element enters the visited set and the queue, an old one is skipped. -/
def discover (visit : β → α → β) (s : Frontier α β) (b : α) : Frontier α β :=
  if b ∈ s.visited then s
  else
    { queue := s.queue ++ [b]
      visited := insert b s.visited
      acc := visit s.acc b }

def discoverAll (visit : β → α → β) (s : Frontier α β) (bs : List α) : Frontier α β :=
  bs.foldl (discover visit) s

/-- At most `rounds` rounds of the loop: take the head of the queue, discover
its successors. -/
def drain (next : α → List α) (visit : β → α → β) : Nat → Frontier α β → Frontier α β
  | 0, s => s
  | rounds + 1, s =>
      match s.queue with
      | [] => s
      | node :: rest =>
          drain next visit rounds (discoverAll visit { s with queue := rest } (next node))

def Step (next : α → List α) (a b : α) : Prop := b ∈ next a

theorem mem_visited_discover_all (visit : β → α → β) (s : Frontier α β) (bs : List α) (x : α) :
    x ∈ (discoverAll visit s bs).visited ↔ x ∈ s.visited ∨ x ∈ bs := by
  induction bs generalizing s with
  | nil => simp [discoverAll]
  | cons b bs ih =>
      have unfolded : discoverAll visit s (b :: bs) = discoverAll visit (discover visit s b) bs :=
        rfl
      rw [unfolded, ih]
      by_cases old : b ∈ s.visited
      · simp only [discover, if_pos old, List.mem_cons]
        constructor
        · rintro (seen | later)
          · exact Or.inl seen
          · exact Or.inr (Or.inr later)
        · rintro (seen | rfl | later)
          · exact Or.inl seen
          · exact Or.inl old
          · exact Or.inr later
      · simp only [discover, if_neg old, Finset.mem_insert, List.mem_cons]
        tauto

/-- What holds before and after one round: the seeds are visited, everything
visited is reachable from a seed, queued elements are visited and queued once,
and a visited element that has left the queue has all successors visited. -/
structure Explored (next : α → List α) (seeds : α → Prop) (s : Frontier α β) : Prop where
  seeded : ∀ a, seeds a → a ∈ s.visited
  sound : ∀ b ∈ s.visited, ∃ a, seeds a ∧ ReflTransGen (Step next) a b
  queued : ∀ a ∈ s.queue, a ∈ s.visited
  once : s.queue.Nodup
  closed : ∀ a ∈ s.visited, a ∉ s.queue → ∀ b ∈ next a, b ∈ s.visited

theorem queue_discover_all (visit : β → α → β) (s : Frontier α β) (bs : List α)
    (queued : ∀ a ∈ s.queue, a ∈ s.visited) (once : s.queue.Nodup) :
    (discoverAll visit s bs).queue.Nodup ∧
      (∀ a ∈ (discoverAll visit s bs).queue, a ∈ (discoverAll visit s bs).visited) ∧
      (∀ a ∈ s.queue, a ∈ (discoverAll visit s bs).queue) ∧
      (∀ a ∈ (discoverAll visit s bs).visited, a ∉ s.visited →
        a ∈ (discoverAll visit s bs).queue) ∧
      (discoverAll visit s bs).visited.card + s.queue.length =
        s.visited.card + (discoverAll visit s bs).queue.length := by
  induction bs generalizing s with
  | nil =>
      refine ⟨once, queued, fun a member => member, fun a member fresh => ?_, rfl⟩
      exact absurd member fresh
  | cons b bs ih =>
      have unfolded : discoverAll visit s (b :: bs) = discoverAll visit (discover visit s b) bs :=
        rfl
      rw [unfolded]
      by_cases old : b ∈ s.visited
      · simp only [discover, if_pos old]
        exact ih s queued once
      · have unqueued : b ∉ s.queue := fun member => old (queued b member)
        simp only [discover, if_neg old]
        obtain ⟨nodup, inside, kept, fresh, count⟩ :=
          ih { queue := s.queue ++ [b], visited := insert b s.visited, acc := visit s.acc b }
            (by
              intro a member
              rcases List.mem_append.mp member with earlier | last
              · exact Finset.mem_insert_of_mem (queued a earlier)
              · rw [List.mem_singleton] at last
                rw [last]
                exact Finset.mem_insert_self b _)
            (List.Nodup.append once (List.nodup_singleton b) (by simpa using unqueued))
        refine ⟨nodup, inside, ?_, ?_, ?_⟩
        · intro a member
          exact kept a (List.mem_append_left _ member)
        · intro a member unseen
          by_cases same : a = b
          · exact kept a (by simp [same])
          · exact fresh a member (by simp [same, unseen])
        · simp only [List.length_append, List.length_singleton,
            Finset.card_insert_of_notMem old] at count ⊢
          omega

theorem round_keeps_explored (next : α → List α) (visit : β → α → β) (seeds : α → Prop)
    (s : Frontier α β) (node : α) (rest : List α) (head : s.queue = node :: rest)
    (explored : Explored next seeds s) :
    Explored next seeds (discoverAll visit { s with queue := rest } (next node)) := by
  have restOnce : rest.Nodup := (List.nodup_cons.mp (head ▸ explored.once)).2
  have restQueued : ∀ a ∈ rest, a ∈ s.visited := by
    intro a member
    exact explored.queued a (head ▸ List.mem_cons_of_mem node member)
  have nodeVisited : node ∈ s.visited := explored.queued node (head ▸ List.mem_cons_self)
  obtain ⟨nodup, inside, kept, fresh, -⟩ :=
    queue_discover_all visit { s with queue := rest } (next node) restQueued restOnce
  refine ⟨?_, ?_, inside, nodup, ?_⟩
  · intro a seed
    exact (mem_visited_discover_all visit _ _ a).mpr (Or.inl (explored.seeded a seed))
  · intro b member
    rcases (mem_visited_discover_all visit _ _ b).mp member with seen | successor
    · exact explored.sound b seen
    · obtain ⟨a, seed, path⟩ := explored.sound node nodeVisited
      exact ⟨a, seed, path.tail successor⟩
  · intro a member unqueued b successor
    rw [mem_visited_discover_all]
    by_cases seen : a ∈ s.visited
    · by_cases same : a = node
      · exact Or.inr (same ▸ successor)
      · refine Or.inl (explored.closed a seen ?_ b successor)
        rw [head, List.mem_cons]
        rintro (equal | later)
        · exact same equal
        · exact unqueued (kept a later)
    · exact absurd (fresh a member seen) unqueued

theorem drain_keeps_explored (next : α → List α) (visit : β → α → β) (seeds : α → Prop)
    (rounds : Nat) (s : Frontier α β) (explored : Explored next seeds s) :
    Explored next seeds (drain next visit rounds s) := by
  induction rounds generalizing s with
  | zero => exact explored
  | succ rounds ih =>
      simp only [drain]
      split
      · exact explored
      · next node rest head =>
          exact ih _ (round_keeps_explored next visit seeds s node rest head explored)

/-- With `rounds` at least the number of elements not yet taken from the queue
the loop ends with an empty queue. -/
theorem drain_empties_queue (next : α → List α) (visit : β → α → β) (seeds : α → Prop)
    (nodes : Finset α) (inside : ∀ b, (∃ a, seeds a ∧ ReflTransGen (Step next) a b) → b ∈ nodes)
    (rounds : Nat) (s : Frontier α β) (explored : Explored next seeds s)
    (enough : nodes.card + s.queue.length ≤ rounds + s.visited.card) :
    (drain next visit rounds s).queue = [] := by
  have bounded (t : Frontier α β) (ex : Explored next seeds t) :
      t.visited.card ≤ nodes.card :=
    Finset.card_le_card fun b member => inside b (ex.sound b member)
  induction rounds generalizing s with
  | zero =>
      have small := bounded s explored
      have none : s.queue.length = 0 := by omega
      exact List.length_eq_zero_iff.mp none
  | succ rounds ih =>
      simp only [drain]
      split
      · assumption
      · next node rest head =>
          have restOnce : rest.Nodup := (List.nodup_cons.mp (head ▸ explored.once)).2
          have restQueued : ∀ a ∈ rest, a ∈ s.visited := by
            intro a member
            exact explored.queued a (head ▸ List.mem_cons_of_mem node member)
          obtain ⟨-, -, -, -, count⟩ :=
            queue_discover_all visit { s with queue := rest } (next node) restQueued restOnce
          apply ih _ (round_keeps_explored next visit seeds s node rest head explored)
          have length : s.queue.length = rest.length + 1 := by rw [head, List.length_cons]
          simp only at count
          omega

omit [DecidableEq α] in
theorem explored_visited_iff (next : α → List α) (seeds : α → Prop) (s : Frontier α β)
    (explored : Explored next seeds s) (finished : s.queue = []) (b : α) :
    b ∈ s.visited ↔ ∃ a, seeds a ∧ ReflTransGen (Step next) a b := by
  constructor
  · exact explored.sound b
  · rintro ⟨a, seed, path⟩
    induction path with
    | refl => exact explored.seeded a seed
    | tail _ step ih =>
        exact explored.closed _ ih (by simp [finished]) _ step

/-- A fact relating visited set and accumulator, kept by every visit of a new
element, holds at the end. -/
theorem discover_all_keeps_acc (visit : β → α → β) (P : Finset α → β → Prop)
    (kept : ∀ visited acc b, b ∉ visited → P visited acc → P (insert b visited) (visit acc b))
    (bs : List α) (s : Frontier α β) (holds : P s.visited s.acc) :
    P (discoverAll visit s bs).visited (discoverAll visit s bs).acc := by
  induction bs generalizing s with
  | nil => exact holds
  | cons b bs ih =>
      apply ih (discover visit s b)
      by_cases old : b ∈ s.visited
      · simpa only [discover, if_pos old] using holds
      · simpa only [discover, if_neg old] using kept s.visited s.acc b old holds

theorem drain_keeps_acc (next : α → List α) (visit : β → α → β) (P : Finset α → β → Prop)
    (kept : ∀ visited acc b, b ∉ visited → P visited acc → P (insert b visited) (visit acc b))
    (rounds : Nat) (s : Frontier α β) (holds : P s.visited s.acc) :
    P (drain next visit rounds s).visited (drain next visit rounds s).acc := by
  induction rounds generalizing s with
  | zero => exact holds
  | succ rounds ih =>
      simp only [drain]
      split
      · exact holds
      · next node rest head =>
          exact ih _ (discover_all_keeps_acc visit P kept (next node) _ holds)

/-- The successors of one element, up to the target. -/
def scan (target : α) : List α → Frontier α Unit → Option (Frontier α Unit)
  | [], s => some s
  | b :: bs, s =>
      if b = target then none
      else scan target bs (discover (fun _ _ => ()) s b)

/-- The exploration that answers as soon as some successor is the target. -/
def search (next : α → List α) (target : α) : Nat → Frontier α Unit → Bool
  | 0, _ => false
  | rounds + 1, s =>
      match s.queue with
      | [] => false
      | node :: rest =>
          match scan target (next node) { s with queue := rest } with
          | none => true
          | some explored => search next target rounds explored

theorem scan_eq (target : α) (bs : List α) (s : Frontier α Unit) :
    scan target bs s =
      if target ∈ bs then none else some (discoverAll (fun _ _ => ()) s bs) := by
  induction bs generalizing s with
  | nil => simp [scan, discoverAll]
  | cons b bs ih =>
      by_cases same : b = target
      · simp [scan, same]
      · have different : target ≠ b := fun equal => same equal.symm
        simp only [scan, if_neg same, ih, List.mem_cons, different, false_or]
        rfl

/-- The search finds the target exactly when some seed reaches it by at least
one step. -/
theorem search_iff (next : α → List α) (target : α) (seeds : α → Prop) (nodes : Finset α)
    (inside : ∀ b, (∃ a, seeds a ∧ ReflTransGen (Step next) a b) → b ∈ nodes)
    (rounds : Nat) (s : Frontier α Unit) (explored : Explored next seeds s)
    (missed : ∀ a ∈ s.visited, a ∉ s.queue → target ∉ next a)
    (enough : nodes.card + s.queue.length < rounds + s.visited.card + 1) :
    search next target rounds s = true ↔
      ∃ a, seeds a ∧ TransGen (Step next) a target := by
  have exhausted (t : Frontier α Unit) (ex : Explored next seeds t) (finished : t.queue = [])
      (never : ∀ a ∈ t.visited, a ∉ t.queue → target ∉ next a) :
      ¬ ∃ a, seeds a ∧ TransGen (Step next) a target := by
    rintro ⟨a, seed, path⟩
    obtain ⟨b, reach, last⟩ := TransGen.tail'_iff.mp path
    have visited : b ∈ t.visited :=
      (explored_visited_iff next seeds t ex finished b).mpr ⟨a, seed, reach⟩
    exact never b visited (by simp [finished]) last
  induction rounds generalizing s with
  | zero =>
      have small : s.visited.card ≤ nodes.card :=
        Finset.card_le_card fun b member => inside b (explored.sound b member)
      have none : s.queue.length = 0 := by omega
      simpa [search] using exhausted s explored (List.length_eq_zero_iff.mp none) missed
  | succ rounds ih =>
      simp only [search]
      split
      · next empty => simpa using exhausted s explored empty missed
      · next node rest head =>
          have nodeVisited : node ∈ s.visited := explored.queued node (head ▸ List.mem_cons_self)
          rw [scan_eq]
          by_cases hit : target ∈ next node
          · obtain ⟨a, seed, path⟩ := explored.sound node nodeVisited
            simp only [if_pos hit, true_iff]
            exact ⟨a, seed, TransGen.tail' path hit⟩
          · simp only [if_neg hit]
            have restOnce : rest.Nodup := (List.nodup_cons.mp (head ▸ explored.once)).2
            have restQueued : ∀ a ∈ rest, a ∈ s.visited := by
              intro a member
              exact explored.queued a (head ▸ List.mem_cons_of_mem node member)
            obtain ⟨-, -, kept, fresh, count⟩ :=
              queue_discover_all (fun _ _ => ()) { s with queue := rest } (next node)
                restQueued restOnce
            apply ih
            · exact round_keeps_explored next _ seeds s node rest head explored
            · intro a member unqueued
              by_cases seen : a ∈ s.visited
              · by_cases same : a = node
                · exact same ▸ hit
                · apply missed a seen
                  rw [head, List.mem_cons]
                  rintro (equal | later)
                  · exact same equal
                  · exact unqueued (kept a later)
              · exact absurd (fresh a member seen) unqueued
            · have length : s.queue.length = rest.length + 1 := by rw [head, List.length_cons]
              simp only at count
              omega

end Mimisbrunnr.Lib.Worklist
