import Mimisbrunnr.Lib.ByteStore
import Mimisbrunnr.Lib.Layout

/-!
# The block device

A device is its bytes together with the failures its next writes and syncs will
meet. A write that fails may have reached the device in part. Reads fail only
outside the capacity.
-/

namespace Mimisbrunnr.Storage

set_option autoImplicit false

open Mimisbrunnr.Lib.ByteStore
open Mimisbrunnr.Lib.Layout

/-- The errors of the packed-key codec. -/
inductive PackError where
  | tooManyFields (count : Nat)
  | fieldOverflow (value : UInt64) (bitWidth : UInt8)
  | malformed (message : String)
  | invalidPrefix (length : Nat)
  | invalidKeyHeaderBytes (count : UInt8)
deriving DecidableEq, Repr

inductive StorageError where
  | io (message : String)
  | invalidMagic (expected actual : List UInt8)
  | invalidFullMagic
  | invalidBlockKind (kind : UInt16)
  | invalidBtreeKind (kind : UInt16)
  | invalidBucketDataType (kind : UInt8)
  | invalidMediaType (kind : UInt8)
  | invalidStorageTier (kind : UInt8)
  | crcMismatch (expected actual : UInt32)
  | unsupportedFormatVersion (version : UInt32)
  | bufferTooSmall (need have_ : Nat)
  | deviceTooSmall (need have_ : Nat)
  | outOfBounds (offset length capacity : Nat)
  | noValidSuperblock
  | readOnly
  | cborEncode (message : String)
  | cborDecode (message : String)
  | invalidSortedRunMagic (expected actual : UInt32)
  | regionFull (used size : Nat)
  | pack (err : PackError)
  | allocatorExhausted (requested : UInt8)
  | staleBlockRef (expected actual : UInt64)
  | crossDiskBlockRef (expectedDisk gotDisk : UInt16)
  | freeOfUnallocatedBucket (bucketNo : UInt32)
deriving DecidableEq, Repr

/-- `RegionFull` and the errors of the encoders. -/
def Refusal : StorageError → Prop
  | .regionFull _ _ => True
  | .cborEncode _ => True
  | .pack _ => True
  | _ => False

/-- An input or output error of the system, with the bytes written before it. -/
structure Fault where
  message : String
  written : Nat
deriving DecidableEq, Repr

structure Device where
  bytes : Bytes
  capacity : Nat
  readOnly : Bool
  faults : List (Option Fault)

namespace Device

def fault (d : Device) : Option Fault := d.faults.headD none

def readAt (d : Device) (offset length : Nat) : Except StorageError (List UInt8) :=
  if d.capacity < offset + length then .error (.outOfBounds offset length d.capacity)
  else .ok (read d.bytes offset length)

def writeAt (d : Device) (offset : Nat) (data : List UInt8) : Except StorageError Unit × Device :=
  if d.readOnly then (.error .readOnly, d)
  else if d.capacity < offset + data.length then
    (.error (.outOfBounds offset data.length d.capacity), d)
  else
    match d.fault with
    | some fault =>
        (.error (.io fault.message),
          { d with
            bytes := overwrite d.bytes offset (data.take fault.written)
            faults := d.faults.tail })
    | none => (.ok (), { d with bytes := overwrite d.bytes offset data, faults := d.faults.tail })

def sync (d : Device) : Except StorageError Unit × Device :=
  if d.readOnly then (.error .readOnly, d)
  else
    match d.fault with
    | some fault => (.error (.io fault.message), { d with faults := d.faults.tail })
    | none => (.ok (), { d with faults := d.faults.tail })

theorem write_at_ok (d after : Device) (offset : Nat) (data : List UInt8)
    (ok : d.writeAt offset data = (.ok (), after)) :
    offset + data.length ≤ d.capacity ∧
      after = { d with bytes := overwrite d.bytes offset data, faults := d.faults.tail } := by
  unfold writeAt at ok
  split at ok
  · cases ok
  · split at ok
    · cases ok
    · next inside =>
        split at ok
        · cases ok
        · cases ok
          exact ⟨Nat.le_of_not_lt inside, rfl⟩

theorem sync_ok (d after : Device) (ok : d.sync = (.ok (), after)) :
    after = { d with faults := d.faults.tail } := by
  unfold sync at ok
  split at ok
  · cases ok
  · split at ok
    · cases ok
    · cases ok
      rfl

/-- No write and no sync to come will fail. -/
structure Healthy (d : Device) : Prop where
  writable : d.readOnly = false
  sound : ∀ fault ∈ d.faults, fault = none

theorem healthy_fault (d : Device) (healthy : d.Healthy) : d.fault = none := by
  unfold fault
  cases pending : d.faults with
  | nil => rfl
  | cons next rest =>
      apply healthy.sound
      rw [pending]
      exact List.mem_cons_self

theorem healthy_after (d : Device) (bytes : Bytes) (healthy : d.Healthy) :
    Healthy { d with bytes := bytes, faults := d.faults.tail } := by
  constructor
  · exact healthy.writable
  · intro fault member
    exact healthy.sound fault (List.mem_of_mem_tail member)

theorem write_at_healthy (d : Device) (offset : Nat) (data : List UInt8) (healthy : d.Healthy)
    (inside : offset + data.length ≤ d.capacity) :
    d.writeAt offset data =
      (.ok (), { d with bytes := overwrite d.bytes offset data, faults := d.faults.tail }) := by
  rw [writeAt, healthy.writable, if_neg (by simp), if_neg (Nat.not_lt.mpr inside),
    healthy_fault d healthy]

theorem sync_healthy (d : Device) (healthy : d.Healthy) :
    d.sync = (.ok (), { d with faults := d.faults.tail }) := by
  rw [sync, healthy.writable, if_neg (by simp), healthy_fault d healthy]

theorem read_at_ok (d : Device) (offset length : Nat) (inside : offset + length ≤ d.capacity) :
    d.readAt offset length = .ok (read d.bytes offset length) := by
  rw [readAt, if_neg (Nat.not_lt.mpr inside)]

end Device

def DeviceM (ε α : Type) : Type := Device → Except ε α × Device

namespace DeviceM

variable {ε ε' α β : Type}

instance : Monad (DeviceM ε) where
  pure value := fun d => (.ok value, d)
  bind first next := fun d =>
    match first d with
    | (.ok value, d) => next value d
    | (.error err, d) => (.error err, d)

def lift (result : Except ε α) : DeviceM ε α := fun d => (result, d)

def mapError (change : ε → ε') (program : DeviceM ε α) : DeviceM ε' α := fun d =>
  match program d with
  | (.ok value, d) => (.ok value, d)
  | (.error err, d) => (.error (change err), d)

def writeAt (offset : Nat) (data : List UInt8) : DeviceM StorageError Unit := fun d =>
  d.writeAt offset data

def sync : DeviceM StorageError Unit := fun d => d.sync

theorem ok_of_fst (program : DeviceM ε α) (d : Device) (value : α)
    (returned : (program d).1 = .ok value) : program d = (.ok value, (program d).2) :=
  Prod.ext returned rfl

theorem error_of_fst (program : DeviceM ε α) (d : Device) (err : ε)
    (stopped : (program d).1 = .error err) : program d = (.error err, (program d).2) :=
  Prod.ext stopped rfl

theorem bind_of_ok (first : DeviceM ε α) (next : α → DeviceM ε β) (d middle : Device) (value : α)
    (done : first d = (.ok value, middle)) : (first >>= next) d = next value middle := by
  change (match first d with
    | (.ok value, d) => next value d
    | (.error err, d) => (.error err, d)) = next value middle
  rw [done]

theorem bind_ok (first : DeviceM ε α) (next : α → DeviceM ε β) (d after : Device) (result : β)
    (ok : (first >>= next) d = (.ok result, after)) :
    ∃ value middle, first d = (.ok value, middle) ∧ next value middle = (.ok result, after) := by
  change (match first d with
    | (.ok value, d) => next value d
    | (.error err, d) => (.error err, d)) = (.ok result, after) at ok
  split at ok
  · next value middle done => exact ⟨value, middle, done, ok⟩
  · cases ok

theorem bind_cases (first : DeviceM ε α) (next : α → DeviceM ε β) (d after : Device)
    (result : Except ε β) (ran : (first >>= next) d = (result, after)) :
    (∃ err, first d = (.error err, after) ∧ result = .error err) ∨
      ∃ value middle, first d = (.ok value, middle) ∧ next value middle = (result, after) := by
  change (match first d with
    | (.ok value, d) => next value d
    | (.error err, d) => (.error err, d)) = (result, after) at ran
  split at ran
  · next value middle done => exact Or.inr ⟨value, middle, done, ran⟩
  · next stopped =>
      cases ran
      exact Or.inl ⟨_, stopped, rfl⟩

theorem bind_error (first : DeviceM ε α) (next : α → DeviceM ε β) (d after : Device) (err : ε)
    (failed : (first >>= next) d = (.error err, after)) :
    first d = (.error err, after) ∨
      ∃ value middle, first d = (.ok value, middle) ∧ next value middle = (.error err, after) := by
  cases bind_cases first next d after _ failed with
  | inl stopped =>
      obtain ⟨other, here, same⟩ := stopped
      cases same
      exact Or.inl here
  | inr behind => exact Or.inr behind

theorem bind_pure (first : DeviceM ε α) (change : α → β) (d after : Device) (result : Except ε β)
    (ran : (first >>= fun value => pure (change value)) d = (result, after)) :
    ∃ outcome, first d = (outcome, after) ∧ result = outcome.map change := by
  cases bind_cases _ _ _ _ _ ran with
  | inl stopped =>
      obtain ⟨err, failed, same⟩ := stopped
      exact ⟨.error err, failed, same⟩
  | inr went =>
      obtain ⟨value, middle, done, returned⟩ := went
      cases returned
      exact ⟨.ok value, done, rfl⟩

theorem pure_ok (value result : α) (d after : Device)
    (ok : (pure value : DeviceM ε α) d = (.ok result, after)) : value = result ∧ d = after := by
  cases ok
  exact ⟨rfl, rfl⟩

theorem lift_ok (result : Except ε α) (value : α) (d after : Device)
    (ok : lift result d = (.ok value, after)) : result = .ok value ∧ d = after := by
  cases ok
  exact ⟨rfl, rfl⟩

theorem lift_error (result : Except ε α) (err : ε) (d after : Device)
    (failed : lift result d = (.error err, after)) : result = .error err ∧ after = d := by
  cases failed
  exact ⟨rfl, rfl⟩

theorem map_error_ok (change : ε → ε') (program : DeviceM ε α) (value : α) (d after : Device)
    (ok : mapError change program d = (.ok value, after)) : program d = (.ok value, after) := by
  unfold mapError at ok
  split at ok
  · next done =>
      cases ok
      exact done
  · cases ok

theorem map_error_failed (change : ε → ε') (program : DeviceM ε α) (err : ε') (d after : Device)
    (failed : mapError change program d = (.error err, after)) :
    ∃ inner, program d = (.error inner, after) ∧ err = change inner := by
  unfold mapError at failed
  split at failed
  · cases failed
  · next stopped =>
      cases failed
      exact ⟨_, stopped, rfl⟩

end DeviceM

theorem write_at_refusal (d after : Device) (offset : Nat) (data : List UInt8)
    (err : StorageError) (failed : DeviceM.writeAt offset data d = (.error err, after)) :
    ¬ Refusal err := by
  change d.writeAt offset data = (.error err, after) at failed
  unfold Device.writeAt at failed
  split at failed
  · cases failed
    exact id
  · split at failed
    · cases failed
      exact id
    · split at failed
      · cases failed
        exact id
      · cases failed

/-- Nothing but the bytes of a range differs. -/
structure ChangesWithin (start length : Nat) (before after : Device) : Prop where
  capacity : after.capacity = before.capacity
  outside : ∀ address, address < start ∨ start + length ≤ address →
    after.bytes address = before.bytes address

/-- Two devices hold the same bytes in a range. -/
structure AgreesOn (start length : Nat) (first second : Device) : Prop where
  capacity : second.capacity = first.capacity
  inside : ∀ address, start ≤ address → address < start + length →
    second.bytes address = first.bytes address

theorem changes_within_refl (start length : Nat) (d : Device) : ChangesWithin start length d d :=
  ⟨rfl, fun _ _ => rfl⟩

theorem changes_within_trans {start length : Nat} {first second third : Device}
    (left : ChangesWithin start length first second)
    (right : ChangesWithin start length second third) : ChangesWithin start length first third :=
  ⟨right.capacity.trans left.capacity,
    fun address outside => (right.outside address outside).trans (left.outside address outside)⟩

theorem changes_within_mono {start length wide width : Nat} {before after : Device}
    (changes : ChangesWithin start length before after) (low : wide ≤ start)
    (high : start + length ≤ wide + width) : ChangesWithin wide width before after :=
  ⟨changes.capacity, fun address outside => changes.outside address (by omega)⟩

theorem changes_within_write (d after : Device) (offset : Nat) (data : List UInt8)
    (ok : DeviceM.writeAt offset data d = (.ok (), after)) :
    ChangesWithin offset data.length d after := by
  have done := Device.write_at_ok d after offset data ok
  rw [done.2]
  exact ⟨rfl, fun address outside => overwrite_outside _ _ _ _ outside⟩

theorem read_of_write (d after : Device) (offset : Nat) (data : List UInt8)
    (ok : DeviceM.writeAt offset data d = (.ok (), after)) :
    read after.bytes offset data.length = data ∧ offset + data.length ≤ after.capacity := by
  have done := Device.write_at_ok d after offset data ok
  rw [done.2]
  exact ⟨read_overwrite _ _ _, done.1⟩

theorem agrees_of_apart {start length other width : Nat} {before after : Device}
    (changes : ChangesWithin other width before after) (apart : Apart start length other width) :
    AgreesOn start length before after := by
  refine ⟨changes.capacity, ?_⟩
  intro address above below
  apply changes.outside
  unfold Apart at apart
  omega

theorem agrees_refl (start length : Nat) (d : Device) : AgreesOn start length d d :=
  ⟨rfl, fun _ _ _ => rfl⟩

theorem agrees_trans {start length : Nat} {first second third : Device}
    (left : AgreesOn start length first second) (right : AgreesOn start length second third) :
    AgreesOn start length first third :=
  ⟨right.capacity.trans left.capacity, fun address above below =>
    (right.inside address above below).trans (left.inside address above below)⟩

theorem agrees_mono {start length part width : Nat} {first second : Device}
    (agrees : AgreesOn start length first second) (low : start ≤ part)
    (high : part + width ≤ start + length) : AgreesOn part width first second :=
  ⟨agrees.capacity, fun address above below => agrees.inside address (by omega) (by omega)⟩

theorem read_agrees {start length : Nat} {first second : Device}
    (agrees : AgreesOn start length first second) :
    read second.bytes start length = read first.bytes start length :=
  read_congr _ _ _ _ agrees.inside

theorem read_at_agrees {start length offset width : Nat} {first second : Device}
    (agrees : AgreesOn start length first second) (low : start ≤ offset)
    (high : offset + width ≤ start + length) :
    second.readAt offset width = first.readAt offset width := by
  have same := read_agrees (agrees_mono agrees low high)
  rw [Device.readAt, Device.readAt, agrees.capacity, same]

def Device.written (d : Device) (write : Nat × List UInt8) : Device :=
  { d with bytes := overwrite d.bytes write.1 write.2 }

/-- The devices that a crash can leave behind when writes reach the disk in the
order they are issued: some of the writes are done, and of the next one any part.
What a torn write leaves is `detected`. -/
inductive Crashed (detected : Nat → Device → Prop) :
    List (Nat × List UInt8) → Device → Device → Prop
  | stopped (writes : List (Nat × List UInt8)) (d : Device) : Crashed detected writes d d
  | torn (write : Nat × List UInt8) (rest : List (Nat × List UInt8)) (d after : Device) :
      ChangesWithin write.1 write.2.length d after → detected write.1 after →
        Crashed detected (write :: rest) d after
  | next (write : Nat × List UInt8) (rest : List (Nat × List UInt8)) (d after : Device) :
      Crashed detected rest (d.written write) after → Crashed detected (write :: rest) d after

theorem written_bytes (writes : List (Nat × List UInt8)) :
    ∀ d e : Device, d.bytes = e.bytes →
      (writes.foldl Device.written d).bytes = (writes.foldl Device.written e).bytes := by
  induction writes with
  | nil =>
      intro d e same
      exact same
  | cons write rest ih =>
      intro d e same
      apply ih
      simp only [Device.written, same]

theorem written_capacity (writes : List (Nat × List UInt8)) :
    ∀ d : Device, (writes.foldl Device.written d).capacity = d.capacity := by
  induction writes with
  | nil =>
      intro d
      rfl
  | cons write rest ih =>
      intro d
      exact ih (d.written write)

theorem written_changes (d : Device) (write : Nat × List UInt8) :
    ChangesWithin write.1 write.2.length d (d.written write) :=
  ⟨rfl, fun _ outside => overwrite_outside _ _ _ _ outside⟩

/-- A crash leaves a range alone that is apart from all writes. -/
theorem crashed_agrees (detected : Nat → Device → Prop) (start length : Nat)
    (writes : List (Nat × List UInt8)) (d after : Device)
    (crash : Crashed detected writes d after)
    (apart : ∀ write ∈ writes, Apart start length write.1 write.2.length) :
    AgreesOn start length d after := by
  induction crash with
  | stopped writes d => exact agrees_refl start length d
  | torn write rest d after changes _ =>
      exact agrees_of_apart changes (apart write List.mem_cons_self)
  | next write rest d after _ ih =>
      have later := ih fun other member => apart other (List.mem_cons_of_mem _ member)
      have first := agrees_of_apart (written_changes d write) (apart write List.mem_cons_self)
      exact agrees_trans first later

abbrev Crc := List UInt8 → UInt32

def crc32cByte (crc : UInt32) (byte : UInt8) : UInt32 :=
  (List.range 8).foldl
    (fun crc _ => if crc &&& 1 = 1 then (crc >>> 1) ^^^ 0x82f63b78 else crc >>> 1)
    (crc ^^^ byte.toUInt32)

def crc32c : Crc := fun bytes => bytes.foldl crc32cByte 0xffffffff ^^^ 0xffffffff

example : crc32c [0x31, 0x32, 0x33, 0x34, 0x35, 0x36, 0x37, 0x38, 0x39] = 0xe3069283 := by
  decide +kernel

section

variable {α : Type}

def sealed (crc : Crc) (body : Pod α) (value : α) : List UInt8 :=
  body.toBytes value ++ Pod.u32.toBytes (crc (body.toBytes value))

/-- The stored checksum and that of the body, when they differ. -/
def brokenSeal (crc : Crc) (body : Pod α) (bytes : List UInt8) : Option (UInt32 × UInt32) :=
  let expected := Pod.u32.ofBytes (bytes.drop body.size)
  let actual := crc (bytes.take body.size)
  if expected = actual then none else some (expected, actual)

def bodyOf (body : Pod α) (bytes : List UInt8) : α := body.ofBytes (bytes.take body.size)

theorem length_sealed (crc : Crc) (body : Pod α) (value : α) :
    (sealed crc body value).length = body.size + 4 := by
  rw [sealed, List.length_append, body.length_to_bytes, Pod.u32.length_to_bytes]
  rfl

theorem broken_seal_sealed (crc : Crc) (body : Pod α) (value : α) :
    brokenSeal crc body (sealed crc body value) = none := by
  have length := body.length_to_bytes value
  simp only [brokenSeal, sealed, List.drop_left' length, List.take_left' length,
    Pod.u32.of_to_bytes, if_true]

theorem body_of_sealed (crc : Crc) (body : Pod α) (value : α) :
    bodyOf body (sealed crc body value) = value :=
  body.of_bytes_take value _

end

def blockSize : Nat := 4096

/-- A sealed block that was written is read where the bytes are the same. -/
theorem sealed_read_back {α : Type} (crc : Crc) (body : Pod α) (size : body.size + 4 = blockSize)
    (value : α) (offset : Nat) (d after : Device)
    (ok : DeviceM.writeAt offset (sealed crc body value) d = (.ok (), after)) :
    ChangesWithin offset blockSize d after ∧
      ∀ e, AgreesOn offset blockSize after e →
        e.readAt offset blockSize = .ok (sealed crc body value) := by
  have length : (sealed crc body value).length = blockSize := by
    rw [length_sealed, size]
  have changes := changes_within_write _ _ _ _ ok
  have stored := read_of_write _ _ _ _ ok
  rw [length] at changes stored
  refine ⟨changes, ?_⟩
  intro e agrees
  rw [read_at_agrees agrees (Nat.le_refl _) (Nat.le_refl _),
    Device.read_at_ok _ _ _ stored.2, stored.1]

inductive BlockKind where
  | superblock
  | zoneMap
  | poolStateRoot
  | walSegment
  | checkpoint
  | tagBitmapPage
  | sequencePage
  | rankedPage
  | kvHashDirectory
  | kvHashBucket
  | overflowRecord
deriving DecidableEq, Repr

namespace BlockKind

def toU16 : BlockKind → UInt16
  | superblock => 0
  | zoneMap => 1
  | poolStateRoot => 2
  | walSegment => 3
  | checkpoint => 4
  | tagBitmapPage => 5
  | sequencePage => 6
  | rankedPage => 7
  | kvHashDirectory => 8
  | kvHashBucket => 9
  | overflowRecord => 10

def all : List BlockKind :=
  [superblock, zoneMap, poolStateRoot, walSegment, checkpoint, tagBitmapPage, sequencePage,
    rankedPage, kvHashDirectory, kvHashBucket, overflowRecord]

def fromU16 (value : UInt16) : Except StorageError BlockKind :=
  match all.find? fun kind => kind.toU16 = value with
  | some kind => .ok kind
  | none => .error (.invalidBlockKind value)

theorem from_to_u16 (kind : BlockKind) : fromU16 kind.toU16 = .ok kind := by
  cases kind <;> decide

end BlockKind

/-- The magic of a block of 4 KiB, `MIMR`. -/
def blockMagic : List.Vector UInt8 4 := ⟨[0x4d, 0x49, 0x4d, 0x52], rfl⟩

structure BlockHeader where
  magic : List.Vector UInt8 4
  kind : UInt16
  formatVersion : UInt16
  payloadLength : UInt32
  generation : UInt64
  lsn : UInt64
  flags : UInt32
deriving DecidableEq

namespace BlockHeader

def new (kind : BlockKind) (formatVersion : UInt16) (payloadLength : UInt32) : BlockHeader :=
  { magic := blockMagic
    kind := kind.toU16
    formatVersion := formatVersion
    payloadLength := payloadLength
    generation := 0
    lsn := 0
    flags := 0 }

def layout : Pod BlockHeader :=
  ((Pod.array 4).prod <| Pod.u16.prod <| Pod.u16.prod <| Pod.u32.prod <| Pod.u64.prod <|
    Pod.u64.prod Pod.u32).map
    (fun (magic, kind, formatVersion, payloadLength, generation, lsn, flags) =>
      { magic, kind, formatVersion, payloadLength, generation, lsn, flags })
    (fun h => (h.magic, h.kind, h.formatVersion, h.payloadLength, h.generation, h.lsn, h.flags))
    (fun _ => rfl)

theorem layout_size : layout.size = 32 := rfl

end BlockHeader

end Mimisbrunnr.Storage
