import Mimisbrunnr.Types.Object
import Mimisbrunnr.Types.Ontology

/-!
# Attribute values and assertions

`Value` is compared in two ways. Lean equality compares the stored data; the
program's `==` follows the floating-point rules, under which a NaN differs from
itself and the two zeros are equal. `Value.eq` and `Assertion.eq` are the
program's comparison. A floating-point number is its 64-bit pattern.
-/

namespace Mimisbrunnr.Types

set_option autoImplicit false

inductive Value where
  | text (string : String)
  | int (number : Int64)
  | float (bits : UInt64)
  | timestamp (ns : Int64)
  | blob (bytes : List UInt8)
  | scoped (context : TagId) (inner : Value)
deriving DecidableEq, Repr

def isNan (bits : UInt64) : Bool := decide (0x7ff0000000000000 < bits.toNat % 2 ^ 63)

def isZero (bits : UInt64) : Bool := decide (bits.toNat % 2 ^ 63 = 0)

def floatEq (left right : UInt64) : Bool :=
  !isNan left && !isNan right && (decide (left = right) || (isZero left && isZero right))

def floatRank (bits : UInt64) : Int :=
  if bits.toNat < 2 ^ 63 then bits.toNat else -(bits.toNat % 2 ^ 63 : Nat)

namespace Value

def eq : Value → Value → Bool
  | .text left, .text right => decide (left = right)
  | .int left, .int right => decide (left = right)
  | .float left, .float right => floatEq left right
  | .timestamp left, .timestamp right => decide (left = right)
  | .blob left, .blob right => decide (left = right)
  | .scoped leftContext left, .scoped rightContext right =>
      decide (leftContext = rightContext) && eq left right
  | _, _ => false

/-- Values of one variant are compared, other than contexts. -/
def partialCmp : Value → Value → Option Ordering
  | .int left, .int right => some (compareOfLessAndEq left right)
  | .float left, .float right =>
      if isNan left || isNan right then none
      else some (compareOfLessAndEq (floatRank left) (floatRank right))
  | .text left, .text right =>
      some (compareOfLessAndEq left.toUTF8.toList right.toUTF8.toList)
  | .timestamp left, .timestamp right => some (compareOfLessAndEq left right)
  | .blob left, .blob right => some (compareOfLessAndEq left right)
  | _, _ => none

def le (left right : Value) : Bool :=
  left.partialCmp right = some .lt || left.partialCmp right = some .eq

def lt (left right : Value) : Bool := left.partialCmp right = some .lt

end Value

inductive Assertion where
  | tag (tag : TagId)
  | attr (key : TagId) (value : Value)
  | relation (predicate : TagId) (target : ObjectId)
deriving DecidableEq, Repr

namespace Assertion

def eq : Assertion → Assertion → Bool
  | tag left, tag right => decide (left = right)
  | attr leftKey left, attr rightKey right => decide (leftKey = rightKey) && left.eq right
  | relation leftPredicate left, relation rightPredicate right =>
      decide (leftPredicate = rightPredicate) && decide (left = right)
  | _, _ => false

@[simp] theorem eq_tag_iff (assertion : Assertion) (t : TagId) :
    assertion.eq (tag t) = true ↔ assertion = tag t := by
  cases assertion <;> simp [eq]

@[simp] theorem eq_relation_iff (assertion : Assertion) (predicate : TagId) (target : ObjectId) :
    assertion.eq (relation predicate target) = true ↔ assertion = relation predicate target := by
  cases assertion <;> simp [eq]

theorem eq_attr_iff (assertion : Assertion) (key : TagId) (value : Value) :
    assertion.eq (attr key value) = true ↔
      ∃ other, assertion = attr key other ∧ other.eq value = true := by
  cases assertion with
  | tag t => simp [eq]
  | relation predicate target => simp [eq]
  | attr otherKey other =>
      simp only [eq, Bool.and_eq_true, decide_eq_true_eq, attr.injEq]
      constructor
      · intro both
        exact ⟨other, ⟨both.1, rfl⟩, both.2⟩
      · intro found
        cases found with
        | intro candidate facts => exact ⟨facts.1.1, facts.1.2 ▸ facts.2⟩

end Assertion

inductive TagOrigin where
  | direct
  | materialized
deriving DecidableEq, Repr

end Mimisbrunnr.Types
