import Mimisbrunnr.Lib.SlotChains
import Mimisbrunnr.Storage.Device

/-!
# Slots on a device

A run of slots of one size from a base. What a slot holds depends on the bytes of
that slot, so slots keep what they hold where a write does not reach them.
-/

namespace Mimisbrunnr.Storage

set_option autoImplicit false

open Mimisbrunnr.Lib.ByteStore
open Mimisbrunnr.Lib.SlotChains

section

variable {β : Type} (holds : Device → Nat → β → Prop) (base unit : Nat)

def SlotLocal : Prop :=
  ∀ d e slot item, AgreesOn (base + slot * unit) unit d e → holds d slot item → holds e slot item

end

namespace SlotLocal

variable {β : Type} {holds : Device → Nat → β → Prop} {base unit : Nat}

theorem agree (slotLocal : SlotLocal holds base unit) {d e : Device} (slot : Nat) (items : List β)
    (laid : Laid (holds d) slot items)
    (agrees : AgreesOn (base + slot * unit) (items.length * unit) d e) :
    Laid (holds e) slot items := by
  apply laid_imp (holds e) slot items laid
  intro index inside item
  apply slotLocal
  have fits := Nat.mul_le_mul_right unit (Nat.succ_le_of_lt inside)
  rw [Nat.succ_mul] at fits
  apply agrees_mono agrees
  · rw [Nat.add_mul]
    omega
  · rw [Nat.add_mul]
    omega

/-- A write over the first slots leaves the old items behind it. -/
theorem overlaid (slotLocal : SlotLocal holds base unit) {d after : Device} (slot : Nat)
    (written old : List β) (oldLaid : Laid (holds d) slot old)
    (newLaid : Laid (holds after) slot written)
    (changes : ChangesWithin (base + slot * unit) (written.length * unit) d after) :
    Laid (holds after) slot (overlay written old) := by
  apply laid_overlay slot written old newLaid
  intro index item behind found
  apply slotLocal d after (slot + index) item
  · apply agrees_of_apart changes
    have far := Nat.mul_le_mul_right unit behind
    rw [Nat.add_mul]
    unfold Apart
    omega
  · exact oldLaid index item found

/-- Slots behind a directory: what was written after the directory leaves the directory and lies
over the old items. -/
theorem over_stored (slotLocal : SlotLocal holds base unit) (old written : List β)
    (dirOffset dirSize cap : Nat) (apart : Apart dirOffset dirSize base (cap * unit))
    (inside : old.length ≤ cap) (short : written.length ≤ cap) {middle stored d after : Device}
    (laid : Laid (holds middle) 0 old) (directory : ChangesWithin dirOffset dirSize middle stored)
    (region : AgreesOn dirOffset dirSize stored d) (slots : AgreesOn base (cap * unit) stored d)
    (changes : ChangesWithin base (written.length * unit) d after)
    (newLaid : Laid (holds after) 0 written) :
    Laid (holds d) 0 old ∧ Laid (holds after) 0 (overlay written old) ∧
      AgreesOn dirOffset dirSize stored after := by
  have oldFit := Nat.mul_le_mul_right unit inside
  have newFit := Nat.mul_le_mul_right unit short
  unfold Apart at apart
  have oldLaid : Laid (holds d) 0 old := by
    apply slotLocal.agree 0 old laid
    rw [Nat.zero_mul, Nat.add_zero]
    apply agrees_trans
    · apply agrees_of_apart directory
      unfold Apart
      omega
    · exact agrees_mono slots (Nat.le_refl _) (by omega)
  refine ⟨oldLaid, ?_, ?_⟩
  · apply slotLocal.overlaid 0 written old oldLaid newLaid
    rw [Nat.zero_mul, Nat.add_zero]
    exact changes
  · apply agrees_trans region
    apply agrees_of_apart changes
    unfold Apart
    omega

end SlotLocal

end Mimisbrunnr.Storage
