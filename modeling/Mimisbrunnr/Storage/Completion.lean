import Mimisbrunnr.Storage.BtreeRoundTrip

/-!
# Programs that complete

On a device that takes every write, below a limit that its capacity reaches, a
program completes if each of its steps does.
-/

namespace Mimisbrunnr.Storage

set_option autoImplicit false

open Mimisbrunnr.Lib.ByteStore
open Mimisbrunnr.Lib.Layout

/-- The program returns such a value on every sound device of the size, and leaves it sound. -/
def Completes {ε α : Type} (limit : Nat) (program : DeviceM ε α) (returns : α → Prop) : Prop :=
  ∀ d : Device, d.Healthy → limit ≤ d.capacity →
    ∃ value after, program d = (.ok value, after) ∧ returns value ∧ after.Healthy ∧
      limit ≤ after.capacity

section

variable {ε ε' α β : Type} {limit : Nat} {returns : α → Prop} {last : β → Prop}

theorem completes_pure (value : α) (holds : returns value) :
    Completes limit (pure value : DeviceM ε α) returns :=
  fun d healthy room => ⟨value, d, rfl, holds, healthy, room⟩

theorem completes_lift (result : Except ε α) (value : α) (ok : result = .ok value)
    (holds : returns value) : Completes limit (DeviceM.lift result) returns := by
  intro d healthy room
  refine ⟨value, d, ?_, holds, healthy, room⟩
  rw [DeviceM.lift, ok]

theorem completes_bind {first : DeviceM ε α} {next : α → DeviceM ε β} (between : α → Prop)
    (left : Completes limit first between)
    (right : ∀ value, between value → Completes limit (next value) last) :
    Completes limit (first >>= next) last := by
  intro d healthy room
  obtain ⟨value, middle, ran, holds, still, wide⟩ := left d healthy room
  rw [DeviceM.bind_of_ok _ _ _ _ _ ran]
  exact right value holds middle still wide

/-- What is known of every result holds of the one that is returned. -/
theorem completes_ok {program : DeviceM ε α} {known : α → Prop}
    (completes : Completes limit program returns)
    (ok : ∀ value d after, program d = (.ok value, after) → known value) :
    Completes limit program known := by
  intro d healthy room
  obtain ⟨value, after, ran, -, rest⟩ := completes d healthy room
  exact ⟨value, after, ran, ok value d after ran, rest⟩

theorem completes_map_error {program : DeviceM ε α} (completes : Completes limit program returns)
    (wrap : ε → ε') : Completes limit (program.mapError wrap) returns := by
  intro d healthy room
  obtain ⟨value, after, ran, rest⟩ := completes d healthy room
  refine ⟨value, after, ?_, rest⟩
  rw [DeviceM.mapError, ran]

end

section

variable {limit : Nat}

theorem completes_write (offset : Nat) (data : List UInt8) (inside : offset + data.length ≤ limit) :
    Completes limit (DeviceM.writeAt offset data) fun _ => True := by
  intro d healthy room
  exact ⟨(), _, d.write_at_healthy offset data healthy (by omega), trivial,
    d.healthy_after _ healthy, room⟩

theorem completes_sync : Completes limit DeviceM.sync fun _ => True := by
  intro d healthy room
  exact ⟨(), _, d.sync_healthy healthy, trivial, d.healthy_after _ healthy, room⟩

variable {κ ν : Type} (crc : Crc) (codec : RunCodec κ ν)

private theorem completes_run (run : SortedRun κ ν) (payload : List UInt8)
    (encoded : codec.encode run.entries = .ok payload)
    (short : blockSize + SortedRunHeader.layout.size + payload.length ≤ regionSize)
    (offset : Nat) (inside : offset + regionSize ≤ limit) :
    Completes limit (writeRuns crc codec offset regionSize [run] blockSize)
      fun cursor => cursor ≤ regionSize := by
  obtain ⟨header, made⟩ : ∃ header, encodeRun crc codec run = .ok (header, payload) := by
    rw [encodeRun, encoded]
    exact ⟨_, rfl⟩
  apply completes_bind _ (completes_lift _ _ made rfl)
  rintro ⟨_, _⟩ same
  cases same
  have fits : ¬ regionSize < blockSize + (SortedRunHeader.layout.size + payload.length) := by omega
  dsimp only
  rw [if_neg fits]
  apply completes_bind _ (completes_write _ _ _)
  · intro _ _
    apply completes_bind _ (completes_write _ _ _)
    · intro _ _
      apply completes_pure
      exact align_up_le _ _ (by decide) (by omega)
    · omega
  · rw [Pod.length_to_bytes]
    omega

/-- A table whose only run, if it has one, fits is flushed. -/
theorem completes_flush_table (kind : BtreeKind) (entries : List (κ × ν))
    (encoded : entries ≠ [] → ∃ payload, codec.encode entries = .ok payload ∧
      blockSize + SortedRunHeader.layout.size + payload.length ≤ regionSize)
    (offset : Nat) (inside : offset + regionSize ≤ limit) :
    Completes limit (flushTable crc codec kind entries offset) fun _ => True := by
  have size : (tableNode kind entries).header.regionSize = regionSize :=
    region_size_table kind entries
  have runs : Completes limit
      (writeRuns crc codec offset (tableNode kind entries).header.regionSize
        (tableNode kind entries).sortedRuns blockSize)
      fun cursor => cursor ≤ regionSize := by
    rw [size]
    cases entries with
    | nil => exact completes_pure _ (show blockSize ≤ regionSize by decide)
    | cons entry rest =>
        obtain ⟨payload, encoded, short⟩ := encoded (List.cons_ne_nil _ _)
        exact completes_run crc codec (SortedRun.fromSorted 0 0 (entry :: rest)) payload encoded
          short offset inside
  apply completes_bind fun _ => True
  · apply completes_bind _ runs
    intro cursor small
    have few : ¬ 2 ^ 32 ≤ cursor - blockSize := by
      have bound : regionSize < 2 ^ 32 := by decide
      omega
    rw [if_neg few]
    apply completes_bind _ (completes_write _ _ _)
    · intro _ _
      exact completes_pure _ trivial
    · rw [length_header_sector]
      have block : blockSize ≤ regionSize := by decide
      omega
  · intro _ _
    exact completes_pure _ trivial

/-- The run takes a block at most. -/
def encodesShort (entries : List (κ × ν)) : Bool :=
  match codec.encode entries with
  | .ok payload => decide (payload.length ≤ blockSize)
  | .error _ => false

theorem encodes_short (entries : List (κ × ν)) (short : encodesShort codec entries = true) :
    ∃ payload, codec.encode entries = .ok payload ∧
      blockSize + SortedRunHeader.layout.size + payload.length ≤ regionSize := by
  unfold encodesShort at short
  split at short
  · next payload encoded =>
      have few := of_decide_eq_true short
      have room : blockSize + SortedRunHeader.layout.size + blockSize ≤ regionSize := by decide
      exact ⟨payload, encoded, by omega⟩
  · cases short

end

end Mimisbrunnr.Storage
