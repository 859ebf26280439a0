import Mathlib.Data.Nat.Bitwise
import Mimisbrunnr.Lib.Layout

/-!
# Checked computations

A computation on machine numbers and slices returns a value, fails with an
error, or stops at a fault: an index outside a slice, an overflow, a shift by
the width or more, an assertion. It meets a specification without faults under
a condition if it stops exactly where the condition is wrong, and else does
what the specification does.
-/

namespace Mimisbrunnr.Lib

set_option autoImplicit false

inductive Fault where
  | outOfRange
  | overflow
  | shift
  | assertion
deriving DecidableEq, Repr

inductive Checked (ε α : Type) where
  | stops (fault : Fault)
  | fails (error : ε)
  | returns (value : α)
deriving DecidableEq, Repr

namespace Checked

variable {ε α β : Type}

def bind (first : Checked ε α) (next : α → Checked ε β) : Checked ε β :=
  match first with
  | stops fault => stops fault
  | fails error => fails error
  | returns value => next value

instance : Monad (Checked ε) where
  pure := returns
  bind := bind

def lift : Except ε α → Checked ε α
  | .error error => fails error
  | .ok value => returns value

/-- The computation with its errors carried by another type. -/
def mapError {ε' : Type} (carry : ε → ε') : Checked ε α → Checked ε' α
  | stops fault => stops fault
  | fails error => fails (carry error)
  | returns value => returns value

def stopped : Checked ε α → Bool
  | stops _ => true
  | _ => false

theorem lifts_iff (computation : Checked ε α) :
    (∃ result, computation = lift result) ↔ computation.stopped = false := by
  cases computation with
  | stops fault =>
      constructor
      · intro found
        obtain ⟨result, same⟩ := found
        cases result <;> cases same
      · intro never
        cases never
  | fails error => exact ⟨fun _ => rfl, fun _ => ⟨.error error, rfl⟩⟩
  | returns value => exact ⟨fun _ => rfl, fun _ => ⟨.ok value, rfl⟩⟩

@[simp] theorem bind_returns (value : α) (next : α → Checked ε β) :
    returns value >>= next = next value := rfl

@[simp] theorem bind_stops (fault : Fault) (next : α → Checked ε β) :
    stops fault >>= next = stops fault := rfl

def add (left right : Nat) : Checked ε Nat :=
  if left + right < 2 ^ 64 then returns (left + right) else stops .overflow

def multiply (left right : Nat) : Checked ε Nat :=
  if left * right < 2 ^ 64 then returns (left * right) else stops .overflow

def subtract (left right : Nat) : Checked ε Nat :=
  if right ≤ left then returns (left - right) else stops .overflow

def element (bytes : List UInt8) (index : Nat) : Checked ε UInt8 :=
  match bytes[index]? with
  | some byte => returns byte
  | none => stops .outOfRange

def slice (bytes : List UInt8) (start stop : Nat) : Checked ε (List UInt8) :=
  if start ≤ stop ∧ stop ≤ bytes.length then returns ((bytes.drop start).take (stop - start))
  else stops .outOfRange

def shiftLeft32 (value : UInt32) (amount : Nat) : Checked ε UInt32 :=
  if amount < 32 then returns (value <<< UInt32.ofNat amount) else stops .shift

def shiftLeft64 (value : UInt64) (amount : Nat) : Checked ε UInt64 :=
  if amount < 64 then returns (value <<< UInt64.ofNat amount) else stops .shift

def assert (condition : Bool) : Checked ε Unit :=
  if condition then returns () else stops .assertion

theorem add_returns (left right : Nat) (small : left + right < 2 ^ 64) :
    (add left right : Checked ε Nat) = returns (left + right) :=
  if_pos small

theorem multiply_returns (left right : Nat) (small : left * right < 2 ^ 64) :
    (multiply left right : Checked ε Nat) = returns (left * right) :=
  if_pos small

theorem subtract_returns (left right : Nat) (order : right ≤ left) :
    (subtract left right : Checked ε Nat) = returns (left - right) :=
  if_pos order

theorem element_returns (bytes : List UInt8) (index : Nat) (inside : index < bytes.length) :
    (element bytes index : Checked ε UInt8) = returns bytes[index] := by
  rw [element, List.getElem?_eq_getElem inside]

theorem slice_returns (bytes : List UInt8) (start stop : Nat) (order : start ≤ stop)
    (inside : stop ≤ bytes.length) :
    (slice bytes start stop : Checked ε (List UInt8)) =
      returns ((bytes.drop start).take (stop - start)) :=
  if_pos ⟨order, inside⟩

/-- A computation stops exactly where the condition is wrong, and else does what is expected. -/
structure Meets (computation : Checked ε α) (condition : Prop) (expected : Except ε α) :
    Prop where
  stops_iff : computation.stopped = false ↔ condition
  result : condition → computation = lift expected

namespace Meets

theorem lift (expected : Except ε α) : Meets (Checked.lift expected) True expected := by
  constructor
  · cases expected with
    | error error => exact ⟨fun _ => trivial, fun _ => rfl⟩
    | ok value => exact ⟨fun _ => trivial, fun _ => rfl⟩
  · intro _
    rfl

theorem of_holds {computation : Checked ε α} {condition : Prop} {expected : Except ε α}
    (holds : condition) (same : computation = Checked.lift expected) :
    Meets computation condition expected := by
  rw [same]
  constructor
  · rw [(lift expected).stops_iff]
    exact ⟨fun _ => holds, fun _ => trivial⟩
  · intro _
    rfl

theorem of_stops {condition : Prop} {expected : Except ε α} (fault : Fault)
    (wrong : ¬ condition) : Meets (Checked.stops fault) condition expected := by
  constructor
  · constructor
    · intro never
      cases never
    · intro holds
      exact absurd holds wrong
  · intro holds
    exact absurd holds wrong

theorem stops_of_not {computation : Checked ε α} {condition : Prop} {expected : Except ε α}
    (meets : Meets computation condition expected) (wrong : ¬ condition) :
    ∃ fault, computation = Checked.stops fault := by
  cases computation with
  | stops fault => exact ⟨fault, rfl⟩
  | fails error => exact absurd (meets.stops_iff.mp rfl) wrong
  | returns value => exact absurd (meets.stops_iff.mp rfl) wrong

theorem congr {computation : Checked ε α} {condition condition' : Prop}
    {expected expected' : Except ε α} (meets : Meets computation condition expected)
    (same : condition ↔ condition') (alike : condition → expected = expected') :
    Meets computation condition' expected' := by
  constructor
  · exact meets.stops_iff.trans same
  · intro holds
    have first := same.mpr holds
    rw [meets.result first, alike first]

theorem mapError {ε' : Type} {computation : Checked ε α} {condition : Prop}
    {expected : Except ε α} (meets : Meets computation condition expected) (carry : ε → ε') :
    Meets (computation.mapError carry) condition (expected.mapError carry) := by
  constructor
  · rw [← meets.stops_iff]
    cases computation <;> exact Iff.rfl
  · intro holds
    rw [meets.result holds]
    cases expected <;> rfl

/-- One computation after the other. -/
theorem bind {first : Checked ε α} {condition : Prop} {expected : Except ε α}
    (meets : Meets first condition expected) (next : α → Checked ε β) (conditions : α → Prop)
    (more : α → Except ε β) (meets' : ∀ value, condition → expected = .ok value →
      Meets (next value) (conditions value) (more value)) :
    Meets (first >>= next) (condition ∧ ∀ value, expected = .ok value → conditions value)
      (expected >>= more) := by
  by_cases holds : condition
  · rw [meets.result holds]
    cases expected with
    | error error =>
        apply of_holds
        · refine ⟨holds, fun value never => ?_⟩
          cases never
        · rfl
    | ok value =>
        apply (meets' value holds rfl).congr
        · constructor
          · intro here
            refine ⟨holds, fun other same => ?_⟩
            cases same
            exact here
          · intro both
            exact both.2 value rfl
        · intro _
          rfl
  · have never : first.stopped ≠ false := fun free => holds (meets.stops_iff.mp free)
    cases first with
    | stops fault => exact of_stops fault fun both => holds both.1
    | fails error => exact absurd rfl never
    | returns value => exact absurd rfl never

theorem map {first : Checked ε α} {condition : Prop} {expected : Except ε α}
    (meets : Meets first condition expected) (make : α → β) :
    Meets (first >>= fun value => Checked.returns (make value)) condition
      (expected >>= fun value => .ok (make value)) := by
  apply (meets.bind (fun value => Checked.returns (make value)) (fun _ => True)
    (fun value => .ok (make value)) fun value _ _ => of_holds trivial rfl).congr
  · exact ⟨fun both => both.1, fun holds => ⟨holds, fun _ _ => trivial⟩⟩
  · intro _
    rfl

end Meets

end Checked

end Mimisbrunnr.Lib
