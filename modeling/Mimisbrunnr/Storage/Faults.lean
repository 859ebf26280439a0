import Mimisbrunnr.Storage.Superblock

/-!
# Programs on devices that fail

A write or a sync that the device accepts takes one entry of the list of
failures to come. A program of so many steps then succeeds just when none of the
next so many entries is a failure, and leaves the entries behind them.
-/

namespace Mimisbrunnr.Storage

set_option autoImplicit false

open Mimisbrunnr.Lib.ByteStore

def Quiet (count : Nat) (faults : List (Option Fault)) : Prop :=
  ∀ fault ∈ faults.take count, fault = none

theorem quiet_one_iff (faults : List (Option Fault)) :
    Quiet 1 faults ↔ faults.headD none = none := by
  cases faults with
  | nil => simp [Quiet]
  | cons fault rest => simp [Quiet]

private theorem quiet_add_iff (first second : Nat) (faults : List (Option Fault)) :
    Quiet (first + second) faults ↔ Quiet first faults ∧ Quiet second (faults.drop first) := by
  simp only [Quiet, List.take_add, List.forall_mem_append]

theorem quiet_of_all (count : Nat) (faults : List (Option Fault))
    (none : ∀ fault ∈ faults, fault = none) : Quiet count faults :=
  fun fault member => none fault (List.mem_of_mem_take member)

variable {ε : Type}

/-- A program of so many writes and syncs, all of which the device accepts. -/
structure Uses (count : Nat) (program : DeviceM ε Unit) (d : Device) : Prop where
  ok_iff : (program d).1 = .ok () ↔ Quiet count d.faults
  rest : ∀ after, program d = (.ok (), after) →
    after.faults = d.faults.drop count ∧ after.capacity = d.capacity ∧ after.readOnly = d.readOnly

namespace Uses

theorem bind {first second : Nat} {program next : DeviceM ε Unit} {d : Device}
    (uses : Uses first program d)
    (then_ : ∀ middle, program d = (.ok (), middle) → Uses second next middle) :
    Uses (first + second) (program >>= fun _ => next) d := by
  constructor
  · rw [quiet_add_iff, ← uses.ok_iff]
    constructor
    · intro ok
      obtain ⟨⟨⟩, middle, done, behind⟩ := DeviceM.bind_ok _ _ _ _ _ (DeviceM.ok_of_fst _ _ _ ok)
      have left := (uses.rest middle done).1
      rw [← left, ← (then_ middle done).ok_iff]
      exact ⟨congrArg Prod.fst done, congrArg Prod.fst behind⟩
    · rintro ⟨ok, quiet⟩
      have done := DeviceM.ok_of_fst _ _ _ ok
      rw [← (uses.rest _ done).1, ← (then_ _ done).ok_iff] at quiet
      rw [DeviceM.bind_of_ok _ _ _ _ _ done]
      exact quiet
  · intro after ok
    obtain ⟨⟨⟩, middle, done, behind⟩ := DeviceM.bind_ok _ _ _ _ _ ok
    obtain ⟨faults, capacity, readOnly⟩ := uses.rest middle done
    obtain ⟨lastFaults, lastCapacity, lastReadOnly⟩ := (then_ middle done).rest after behind
    rw [lastFaults, faults, List.drop_drop]
    exact ⟨rfl, lastCapacity.trans capacity, lastReadOnly.trans readOnly⟩

theorem map_error {ε' : Type} {count : Nat} {program : DeviceM ε Unit} {d : Device}
    (uses : Uses count program d) (change : ε → ε') :
    Uses count (DeviceM.mapError change program) d := by
  constructor
  · rw [← uses.ok_iff]
    rcases ran : program d with ⟨_ | ⟨⟩, after⟩
    · simp [DeviceM.mapError, ran]
    · simp [DeviceM.mapError, ran]
  · intro after ok
    exact uses.rest after (DeviceM.map_error_ok change program () d after ok)

end Uses

theorem uses_write (d : Device) (offset : Nat) (data : List UInt8) (writable : d.readOnly = false)
    (inside : offset + data.length ≤ d.capacity) : Uses 1 (DeviceM.writeAt offset data) d := by
  have fits : ¬ d.capacity < offset + data.length := Nat.not_lt.mpr inside
  constructor
  · rw [quiet_one_iff]
    change (d.writeAt offset data).1 = _ ↔ d.fault = none
    rw [Device.writeAt, if_neg (by simp [writable]), if_neg fits]
    cases d.fault with
    | none => simp
    | some fault => simp
  · intro after ok
    obtain ⟨-, rfl⟩ := Device.write_at_ok d after offset data ok
    exact ⟨(List.drop_one).symm, rfl, rfl⟩

theorem uses_sync (d : Device) (writable : d.readOnly = false) : Uses 1 DeviceM.sync d := by
  constructor
  · rw [quiet_one_iff]
    change d.sync.1 = _ ↔ d.fault = none
    rw [Device.sync, if_neg (by simp [writable])]
    cases d.fault with
    | none => simp
    | some fault => simp
  · intro after ok
    have settled := Device.sync_ok d after ok
    subst settled
    exact ⟨(List.drop_one).symm, rfl, rfl⟩

theorem write_at_bytes (d : Device) (offset : Nat) (data : List UInt8) :
    ∃ count, (d.writeAt offset data).2.bytes = overwrite d.bytes offset (data.take count) ∧
      ((d.writeAt offset data).1 = .ok () → count = data.length) := by
  have nothing : d.bytes = overwrite d.bytes offset (data.take 0) := by
    funext address
    exact (overwrite_outside d.bytes offset address [] (by simp only [List.length_nil]; omega)).symm
  unfold Device.writeAt
  split
  · exact ⟨0, nothing, by simp⟩
  · split
    · exact ⟨0, nothing, by simp⟩
    · split
      · next fault _ => exact ⟨fault.written, rfl, by simp⟩
      · exact ⟨data.length, by rw [List.take_length], fun _ => rfl⟩

@[simp] theorem sync_bytes (d : Device) : d.sync.2.bytes = d.bytes := by
  unfold Device.sync
  split
  · rfl
  · split
    · rfl
    · rfl

namespace Superblock

private theorem uses_copies (bytes : List UInt8) (offsets : List Nat) :
    ∀ d : Device, d.readOnly = false → (∀ offset ∈ offsets, offset + bytes.length ≤ d.capacity) →
      Uses offsets.length (writeCopies bytes offsets) d := by
  induction offsets with
  | nil =>
      intro d _ _
      constructor
      · simp [writeCopies, Quiet, pure]
      · intro after ok
        obtain ⟨-, rfl⟩ := DeviceM.pure_ok _ _ _ _ ok
        exact ⟨rfl, rfl, rfl⟩
  | cons offset rest ih =>
      intro d writable inside
      have first := uses_write d offset bytes writable (inside offset List.mem_cons_self)
      rw [List.length_cons, Nat.add_comm]
      apply first.bind
      intro middle done
      obtain ⟨-, capacity, readOnly⟩ := first.rest middle done
      apply ih middle (readOnly.trans writable)
      intro other member
      rw [capacity]
      exact inside other (List.mem_cons_of_mem _ member)

theorem uses_write_all (crc : Crc) (sb : Superblock) (d : Device) (writable : d.readOnly = false)
    (room : blockSize * 3 ≤ d.capacity) : Uses 4 (sb.writeAll crc) d := by
  have copies := uses_copies (sealed crc body sb) (copyOffsets d.capacity) d writable (by
    intro offset member
    rw [length_copy]
    simp only [copyOffsets, List.mem_cons, List.not_mem_nil, or_false] at member
    simp only [blockSize] at room member ⊢
    omega)
  have whole := @Uses.bind _ _ 1 _ DeviceM.sync _ copies (by
    intro middle done
    exact uses_sync middle ((copies.rest middle done).2.2.trans writable))
  exact ⟨whole.ok_iff, whole.rest⟩

theorem format_ok_iff (crc : Crc) (args : Format) (d : Device) (writable : d.readOnly = false) :
    (∃ sb after, format crc args d = (.ok sb, after)) ↔
      blockSize * 3 ≤ d.capacity ∧ Quiet 4 d.faults := by
  by_cases room : blockSize * 3 ≤ d.capacity
  · have uses := uses_write_all crc (newBlank crc args (UInt64.ofNat d.capacity)) d writable room
    rw [← uses.ok_iff]
    simp only [format, if_neg (Nat.not_lt.mpr room), bind, pure]
    rcases written : writeAll crc (newBlank crc args (UInt64.ofNat d.capacity)) d with ⟨_ | ⟨⟩, after⟩
    · simp
    · simp [room]
  · simp only [format, if_pos (Nat.not_le.mp room), Prod.mk.injEq, reduceCtorEq, false_and,
      exists_false, room]

theorem format_rest (crc : Crc) (args : Format) (sb : Superblock) (d after : Device)
    (writable : d.readOnly = false) (ok : format crc args d = (.ok sb, after)) :
    after.faults = d.faults.drop 4 := by
  have room := ((format_ok_iff crc args d writable).mp ⟨sb, after, ok⟩).1
  rw [format, if_neg (Nat.not_lt.mpr room)] at ok
  obtain ⟨⟨⟩, middle, written, done⟩ := DeviceM.bind_ok _ _ _ _ _ ok
  obtain ⟨-, rfl⟩ := DeviceM.pure_ok _ _ _ _ done
  exact ((uses_write_all crc _ d writable room).rest middle written).1

end Superblock

end Mimisbrunnr.Storage
