import Mimisbrunnr.Storage.Btree

/-!
# Programs confined to a part of the device

A program whose writes all start at or behind a limit changes nothing below the
limit, and no program changes what lies behind the end of the device. Both hold
whether or not the program succeeds, and both carry from the steps of a program
to the whole.
-/

namespace Mimisbrunnr.Storage

set_option autoImplicit false

open Mimisbrunnr.Lib.ByteStore
open Mimisbrunnr.Lib.Layout

/-- The bytes below the limit and those behind the end of the device are the same. -/
structure Confined (limit : Nat) (d after : Device) : Prop where
  capacity : after.capacity = d.capacity
  kept : ∀ address, address < limit ∨ d.capacity ≤ address → after.bytes address = d.bytes address

theorem confined_refl (limit : Nat) (d : Device) : Confined limit d d := ⟨rfl, fun _ _ => rfl⟩

theorem confined_trans {limit : Nat} {first second third : Device}
    (left : Confined limit first second) (right : Confined limit second third) :
    Confined limit first third := by
  refine ⟨right.capacity.trans left.capacity, ?_⟩
  intro address outside
  rw [right.kept address (by rw [left.capacity]; exact outside), left.kept address outside]

theorem confined_agrees {limit start length : Nat} {d after : Device}
    (confined : Confined limit d after) (below : start + length ≤ limit) :
    AgreesOn start length d after := by
  refine ⟨confined.capacity, ?_⟩
  intro address _ last
  exact confined.kept address (Or.inl (by omega))

def Confines {ε α : Type} (limit : Nat) (program : DeviceM ε α) : Prop :=
  ∀ d, Confined limit d (program d).2

section

variable {ε ε' α β : Type} {limit : Nat}

theorem Confines.after {program : DeviceM ε α} (confines : Confines limit program)
    {d after : Device} {result : Except ε α} (ran : program d = (result, after)) :
    Confined limit d after := by
  have last := confines d
  rw [ran] at last
  exact last

theorem confines_pure (value : α) : Confines limit (pure value : DeviceM ε α) :=
  fun d => confined_refl limit d

theorem confines_lift (result : Except ε α) : Confines limit (DeviceM.lift result) :=
  fun d => confined_refl limit d

theorem confines_bind {first : DeviceM ε α} {next : α → DeviceM ε β}
    (left : Confines limit first) (right : ∀ value, Confines limit (next value)) :
    Confines limit (first >>= next) := by
  intro d
  rcases ran : (first >>= next) d with ⟨result, after⟩
  cases DeviceM.bind_cases _ _ _ _ _ ran with
  | inl stopped =>
      obtain ⟨err, failed, -⟩ := stopped
      exact left.after failed
  | inr went =>
      obtain ⟨value, middle, done, later⟩ := went
      exact confined_trans (left.after done) ((right value).after later)

theorem confines_map_error {program : DeviceM ε α} (confines : Confines limit program)
    (change : ε → ε') : Confines limit (program.mapError change) := by
  intro d
  rcases ran : program d with ⟨_ | value, after⟩
  · have last := confines.after ran
    rw [DeviceM.mapError, ran]
    exact last
  · have last := confines.after ran
    rw [DeviceM.mapError, ran]
    exact last

private theorem confined_overwrite (d : Device) (offset : Nat) (data : List UInt8)
    (faults : List (Option Fault)) (above : limit ≤ offset)
    (inside : offset + data.length ≤ d.capacity) :
    Confined limit d { d with bytes := overwrite d.bytes offset data, faults := faults } := by
  refine ⟨rfl, ?_⟩
  intro address outside
  apply overwrite_outside
  omega

theorem confines_write (offset : Nat) (data : List UInt8) (above : limit ≤ offset) :
    Confines limit (DeviceM.writeAt offset data) := by
  intro d
  rw [DeviceM.writeAt, Device.writeAt]
  split
  · exact confined_refl limit d
  · split
    · exact confined_refl limit d
    · next inside =>
        split
        · next fault _ =>
            apply confined_overwrite _ _ _ _ above
            have taken := List.length_take_le' fault.written data
            omega
        · exact confined_overwrite _ _ _ _ above (Nat.le_of_not_lt inside)

theorem confines_sync : Confines limit DeviceM.sync := by
  intro d
  rw [DeviceM.sync, Device.sync]
  split
  · exact confined_refl limit d
  · split
    · exact ⟨rfl, fun _ _ => rfl⟩
    · exact ⟨rfl, fun _ _ => rfl⟩

end

section

variable {κ ν : Type} {limit : Nat}

private theorem confines_write_runs (crc : Crc) (codec : RunCodec κ ν) (offset regionSize : Nat)
    (above : limit ≤ offset) (runs : List (SortedRun κ ν)) :
    ∀ cursor, Confines limit (writeRuns crc codec offset regionSize runs cursor) := by
  induction runs with
  | nil =>
      intro cursor
      exact confines_pure cursor
  | cons run runs ih =>
      intro cursor
      apply confines_bind (confines_lift _)
      intro (header, payload)
      dsimp only
      split
      · exact confines_lift _
      · apply confines_bind (confines_write _ _ (by omega))
        intro _
        apply confines_bind (confines_write _ _ (by omega))
        intro _
        exact ih _

theorem confines_flush_table (crc : Crc) (codec : RunCodec κ ν) (kind : BtreeKind)
    (entries : List (κ × ν)) (offset : Nat) (above : limit ≤ offset) :
    Confines limit (flushTable crc codec kind entries offset) := by
  apply confines_bind
  · apply confines_bind (confines_write_runs crc codec offset _ above _ _)
    intro cursor
    dsimp only
    split
    · exact confines_lift _
    · apply confines_bind (confines_write _ _ above)
      intro _
      exact confines_pure _
  · intro _
    exact confines_pure _

end

end Mimisbrunnr.Storage
