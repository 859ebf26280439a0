import Mimisbrunnr.Storage.RegionStore

/-!
# Writers of regions that fail

A writer that appends a run checks it before it touches the device. The writer of
a whole region checks run by run: those in front of the one that fails lie already
in the place of the old runs, and the old header still counts them as its own.
-/

namespace Mimisbrunnr.Storage

set_option autoImplicit false

open Mimisbrunnr.Lib.ByteStore
open Mimisbrunnr.Lib.Layout

variable {κ ν : Type}

/-- A call of a writer. The codec tells `write_full` and `append_sorted_run` from their packed
variants. -/
inductive RegionWrite (κ ν : Type) where
  | full (node : LoadedNode κ ν)
  | append (header : BtreeNodeHeader) (run : SortedRun κ ν)

namespace RegionWrite

def header : RegionWrite κ ν → BtreeNodeHeader
  | full node => node.header
  | append header _ => header

def perform (crc : Crc) (codec : RunCodec κ ν) (offset : Nat) :
    RegionWrite κ ν → DeviceM StorageError Unit
  | full node => do
      let _ ← writeFullWith crc codec offset node
      pure ()
  | append header run => do
      let _ ← appendSortedRunWith crc codec offset header run
      pure ()

end RegionWrite

/-- The runs in front of the first that does not fit or cannot be encoded. -/
def placedRuns (crc : Crc) (codec : RunCodec κ ν) (regionSize : Nat) :
    List (SortedRun κ ν) → Nat → List (SortedRunHeader × List UInt8)
  | [], _ => []
  | run :: runs, cursor =>
      match encodeRun crc codec run with
      | .error _ => []
      | .ok (header, payload) =>
          let runTotal := SortedRunHeader.layout.size + payload.length
          if regionSize < cursor + runTotal then []
          else
            (header, payload) ::
              placedRuns crc codec regionSize runs (alignUpToSector (cursor + runTotal))

/-- The reader finds a run in its encoded form. -/
def ReadsAs (reader : RunCodec κ ν) (placed : SortedRunHeader × List UInt8)
    (run : SortedRun κ ν) : Prop :=
  reader.refuse placed.1.flags = none ∧ run.seq = placed.1.seq ∧
    run.journalSeq = placed.1.journalSeq ∧ run.flags = placed.1.flags ∧
    reader.decode placed.1 placed.2 = .ok run.entries

/-- Runs that repeat old ones: as far as the old header reaches, each reads as the old run at its
place, and the rest of the old runs lies behind the last of them. -/
def Repeats (crc : Crc) (reader : RunCodec κ ν) (d : Device) (offset payloadEnd : Nat) :
    List (SortedRunHeader × List UInt8) → Nat → Nat → List (SortedRun κ ν) → Prop
  | [], count, cursor, old => readRuns crc reader d offset payloadEnd count cursor = .ok old
  | _ :: _, 0, _, old => old = []
  | placed :: rest, count + 1, cursor, old =>
      if payloadEnd ≤ cursor then old = []
      else
        ∃ run later, old = run :: later ∧ ReadsAs reader placed run ∧
          Repeats crc reader d offset payloadEnd rest count
            (alignUpToSector (cursor + (SortedRunHeader.layout.size + placed.2.length))) later

/-- A call that does no harm to the old runs when it fails. -/
def RegionWrite.Harmless (crc : Crc) (codec reader : RunCodec κ ν) (d : Device) (offset : Nat)
    (found : LoadedNode κ ν) : RegionWrite κ ν → Prop
  | .full node =>
      Repeats crc reader d offset (blockSize + found.header.payloadUsed.toNat)
        (placedRuns crc codec node.header.regionSize node.sortedRuns blockSize)
        found.header.sortedRunCount.toNat blockSize found.sortedRuns
  | .append _ _ => True

section

variable (crc : Crc) (offset : Nat)

private theorem read_runs_congr (reader : RunCodec κ ν) {d e : Device} (payloadEnd count : Nat)
    (capacity : e.capacity = d.capacity) :
    ∀ cursor, (∀ address, offset + cursor ≤ address → e.bytes address = d.bytes address) →
      readRuns crc reader e offset payloadEnd count cursor =
        readRuns crc reader d offset payloadEnd count cursor := by
  induction count with
  | zero =>
      intro cursor _
      rfl
  | succ count ih =>
      intro cursor same
      have reads : ∀ start length, offset + cursor ≤ start →
          e.readAt start length = d.readAt start length := by
        intro start length above
        rw [Device.readAt, Device.readAt, capacity,
          read_congr e.bytes d.bytes start length fun address low _ =>
            same address (Nat.le_trans above low)]
      have later : ∀ total, readRuns crc reader e offset payloadEnd count
          (alignUpToSector (cursor + total)) = readRuns crc reader d offset payloadEnd count
          (alignUpToSector (cursor + total)) := by
        intro total
        have up := le_align_up (cursor + total)
        exact ih _ fun address above => same address (by omega)
      simp only [readRuns, reads (offset + cursor) _ (Nat.le_refl _),
        reads (offset + cursor + SortedRunHeader.layout.size) _ (Nat.le_add_right _ _), later]

private theorem repeats_congr (reader : RunCodec κ ν) {d e : Device} (payloadEnd : Nat)
    (capacity : e.capacity = d.capacity) (placed : List (SortedRunHeader × List UInt8)) :
    ∀ count cursor old,
      (∀ address, offset + cursor ≤ address → e.bytes address = d.bytes address) →
      (Repeats crc reader e offset payloadEnd placed count cursor old ↔
        Repeats crc reader d offset payloadEnd placed count cursor old) := by
  induction placed with
  | nil =>
      intro count cursor old same
      rw [Repeats, Repeats, read_runs_congr crc offset reader payloadEnd count capacity cursor same]
  | cons next rest ih =>
      intro count cursor old same
      cases count with
      | zero => exact Iff.rfl
      | succ count =>
          have up := le_align_up (cursor + (SortedRunHeader.layout.size + next.2.length))
          rw [Repeats, Repeats]
          split
          · exact Iff.rfl
          · apply exists_congr
            intro run
            apply exists_congr
            intro later
            apply and_congr_right
            intro _
            apply and_congr_right
            intro _
            exact ih count _ later fun address above => same address (by omega)

end

/-- The runs from an encoded one on are those that the reader finds in it and behind it. -/
theorem read_placed_iff (reader : RunCodec κ ν) (header : SortedRunHeader) (payload : List UInt8)
    (behind : Except StorageError (List (SortedRun κ ν))) (old : List (SortedRun κ ν)) :
    ((match reader.refuse header.flags with
      | some err => .error err
      | none => do
          let entries ← reader.decode header payload
          let later ← behind
          .ok (⟨header.seq, header.journalSeq, header.flags, entries⟩ :: later)) :
        Except StorageError (List (SortedRun κ ν))) = .ok old ↔
      ∃ run later, old = run :: later ∧ ReadsAs reader (header, payload) run ∧
        behind = .ok later := by
  unfold ReadsAs
  cases refused : reader.refuse header.flags with
  | some err =>
      constructor
      · intro found
        cases found
      · intro repeats
        obtain ⟨run, later, -, reads, -⟩ := repeats
        cases reads.1
  | none =>
      cases decoded : reader.decode header payload with
      | error err =>
          constructor
          · intro found
            cases found
          · intro repeats
            obtain ⟨run, later, -, reads, -⟩ := repeats
            cases reads.2.2.2.2
      | ok entries =>
          cases behind with
          | error err =>
              constructor
              · intro found
                cases found
              · intro repeats
                obtain ⟨run, later, -, -, found⟩ := repeats
                cases found
          | ok later =>
              constructor
              · intro found
                cases found
                exact ⟨_, later, rfl, ⟨rfl, rfl, rfl, rfl, rfl⟩, rfl⟩
              · intro repeats
                obtain ⟨run, rest, same, reads, found⟩ := repeats
                cases found
                obtain ⟨-, seq, journalSeq, flags, entries⟩ := reads
                cases entries
                rw [same, ← seq, ← journalSeq, ← flags]
                rfl

section

variable (crc : Crc) (offset : Nat)

/-- How the writing of the runs goes on at a run, when it fails in the end. -/
theorem write_runs_refused (codec : RunCodec κ ν) (size : Nat) (run : SortedRun κ ν)
    (runs : List (SortedRun κ ν)) (cursor : Nat) (d after : Device) (err : StorageError)
    (failed : writeRuns crc codec offset size (run :: runs) cursor d = (.error err, after))
    (refused : Refusal err) :
    (placedRuns crc codec size (run :: runs) cursor = [] ∧ after = d) ∨
      ∃ header payload middle late,
        encodeRun crc codec run = .ok (header, payload) ∧
        cursor + (SortedRunHeader.layout.size + payload.length) ≤ size ∧
        placedRuns crc codec size (run :: runs) cursor =
          (header, payload) :: placedRuns crc codec size runs
            (alignUpToSector (cursor + (SortedRunHeader.layout.size + payload.length))) ∧
        DeviceM.writeAt (offset + cursor) (SortedRunHeader.layout.toBytes header) d =
          (.ok (), middle) ∧
        DeviceM.writeAt (offset + cursor + SortedRunHeader.layout.size) payload middle =
          (.ok (), late) ∧
        writeRuns crc codec offset size runs
          (alignUpToSector (cursor + (SortedRunHeader.layout.size + payload.length))) late =
          (.error err, after) := by
  rw [placedRuns]
  cases encoded : encodeRun crc codec run with
  | error reason =>
      have stopped := DeviceM.bind_error _ _ _ _ _ failed
      rw [encoded] at stopped
      cases stopped with
      | inl first =>
          cases first
          exact Or.inl ⟨rfl, rfl⟩
      | inr second =>
          obtain ⟨value, middle, done, -⟩ := second
          cases done
  | ok stored =>
      obtain ⟨header, payload⟩ := stored
      have stopped := DeviceM.bind_error _ _ _ _ _ failed
      rw [encoded] at stopped
      cases stopped with
      | inl first => cases first
      | inr second =>
          obtain ⟨value, same, done, failed⟩ := second
          cases done
          dsimp only at failed ⊢
          split at failed
          · next full =>
              cases failed
              rw [if_pos full]
              exact Or.inl ⟨rfl, rfl⟩
          · next fits =>
              rw [if_neg fits]
              cases DeviceM.bind_error _ _ _ _ _ failed with
              | inl first => exact absurd refused (write_at_refusal _ _ _ _ _ first)
              | inr next =>
                  obtain ⟨⟨⟩, middle, first, failed⟩ := next
                  cases DeviceM.bind_error _ _ _ _ _ failed with
                  | inl second => exact absurd refused (write_at_refusal _ _ _ _ _ second)
                  | inr next =>
                      obtain ⟨⟨⟩, late, second, failed⟩ := next
                      exact Or.inr ⟨header, payload, middle, late, rfl, Nat.le_of_not_lt fits, rfl,
                        first, second, failed⟩

/-- The bytes in front of the runs stay. -/
theorem write_runs_below (codec : RunCodec κ ν) (size : Nat) (runs : List (SortedRun κ ν)) :
    ∀ cursor d after err,
      writeRuns crc codec offset size runs cursor d = (.error err, after) → Refusal err →
      after.capacity = d.capacity ∧
        ∀ address, address < offset + cursor → after.bytes address = d.bytes address := by
  induction runs with
  | nil =>
      intro cursor d after err failed _
      cases failed
  | cons run runs ih =>
      intro cursor d after err failed refused
      cases write_runs_refused crc offset codec size run runs cursor d after err failed refused with
      | inl stopped =>
          rw [stopped.2]
          exact ⟨rfl, fun _ _ => rfl⟩
      | inr went =>
          obtain ⟨header, payload, middle, late, -, -, -, first, second, failed⟩ := went
          have up := le_align_up (cursor + (SortedRunHeader.layout.size + payload.length))
          have headerWrite := changes_within_write _ _ _ _ first
          have payloadWrite := changes_within_write _ _ _ _ second
          have rest := ih _ _ _ _ failed refused
          constructor
          · rw [rest.1, payloadWrite.capacity, headerWrite.capacity]
          · intro address below
            rw [rest.2 address (by omega), payloadWrite.outside address (Or.inl (by omega)),
              headerWrite.outside address (Or.inl below)]

/-- What is read behind a cursor after the writing of the runs has failed there. -/
theorem read_refused_runs (codec reader : RunCodec κ ν) (size : Nat) (narrow : size < 2 ^ 32)
    (payloadEnd : Nat) (runs : List (SortedRun κ ν)) :
    ∀ cursor d after err count old,
      writeRuns crc codec offset size runs cursor d = (.error err, after) → Refusal err →
      (readRuns crc reader after offset payloadEnd count cursor = .ok old ↔
        Repeats crc reader d offset payloadEnd (placedRuns crc codec size runs cursor) count cursor
          old) := by
  induction runs with
  | nil =>
      intro cursor d after err count old failed _
      cases failed
  | cons run runs ih =>
      intro cursor d after err count old failed refused
      cases write_runs_refused crc offset codec size run runs cursor d after err failed refused with
      | inl stopped =>
          rw [stopped.1, stopped.2]
          exact Iff.rfl
      | inr went =>
          obtain ⟨header, payload, middle, late, encoded, fits, placed, first, second, failed⟩ :=
            went
          rw [placed]
          let next := alignUpToSector (cursor + (SortedRunHeader.layout.size + payload.length))
          have up : cursor + (SortedRunHeader.layout.size + payload.length) ≤ next := le_align_up _
          obtain ⟨changes, stored⟩ := write_run_ok crc offset codec run cursor
            (cursor + (SortedRunHeader.layout.size + payload.length)) header payload d middle late
            encoded (Nat.le_refl _) (by omega) first second
          have below := write_runs_below crc offset codec size runs next late after err failed
            refused
          have kept : AgreesOn (offset + cursor) (next - cursor) late after :=
            ⟨below.1, fun address _ inside => below.2 address (by omega)⟩
          obtain ⟨sameHeader, samePayload, again, short, room, headerRead, payloadRead, -⟩ :=
            mixed_stored_agrees crc offset [(codec, run)] cursor next kept cursor next
              (Nat.le_refl _) (Nat.le_refl _) stored
          cases encoded.symm.trans again
          have behind : ∀ later, readRuns crc reader after offset payloadEnd (count - 1) next =
              .ok later ↔ Repeats crc reader d offset payloadEnd
                (placedRuns crc codec size runs next) (count - 1) next later := by
            intro later
            rw [ih next late after err (count - 1) later failed refused]
            apply repeats_congr crc offset reader payloadEnd changes.capacity
            intro address above
            exact changes.outside address (Or.inr (by omega))
          cases count with
          | zero => exact ⟨fun same => (Except.ok.inj same).symm, fun none => by rw [none]; rfl⟩
          | succ count =>
              rw [Repeats]
              split
              · next ended =>
                  rw [readRuns, if_pos ended]
                  exact ⟨fun same => (Except.ok.inj same).symm, fun none => by rw [none]⟩
              · next more =>
                  rw [read_encoded_run crc offset reader codec run after payloadEnd cursor count
                    header payload (Nat.lt_of_not_le more) encoded short room headerRead
                    payloadRead]
                  apply Iff.trans (read_placed_iff reader header payload _ old)
                  apply exists_congr
                  intro found
                  apply exists_congr
                  intro later
                  apply and_congr_right
                  intro _
                  apply and_congr_right
                  intro _
                  exact behind later

theorem write_runs_stop (codec : RunCodec κ ν) (size : Nat) (runs : List (SortedRun κ ν)) :
    ∀ cursor d after stop, writeRuns crc codec offset size runs cursor d = (.ok stop, after) →
      stop ≤ cursor ∨ stop < size + blockSize := by
  induction runs with
  | nil =>
      intro cursor d after stop ok
      obtain ⟨same, -⟩ := DeviceM.pure_ok _ _ _ _ ok
      exact Or.inl (Nat.le_of_eq same.symm)
  | cons run runs ih =>
      intro cursor d after stop ok
      obtain ⟨⟨header, payload⟩, same, -, ok⟩ := DeviceM.bind_ok _ _ _ _ _ ok
      dsimp only at ok
      split at ok
      · cases ok
      · next fits =>
          obtain ⟨⟨⟩, middle, -, ok⟩ := DeviceM.bind_ok _ _ _ _ _ ok
          obtain ⟨⟨⟩, late, -, ok⟩ := DeviceM.bind_ok _ _ _ _ _ ok
          have near : alignUpToSector (cursor + (SortedRunHeader.layout.size + payload.length)) <
              size + blockSize := by
            unfold alignUpToSector
            simp only [blockSize]
            omega
          cases ih _ _ _ _ ok with
          | inl low => exact Or.inr (Nat.lt_of_le_of_lt low near)
          | inr low => exact Or.inr low

/-- A region of less than 4 GiB is refused for its runs, not for the length of its payload. -/
theorem write_full_refused (codec : RunCodec κ ν) (node : LoadedNode κ ν) (d after : Device)
    (err : StorageError) (small : node.header.regionSizeLog2.toNat < 32)
    (failed : writeFullWith crc codec offset node d = (.error err, after))
    (refused : Refusal err) :
    writeRuns crc codec offset node.header.regionSize node.sortedRuns blockSize d =
      (.error err, after) := by
  cases DeviceM.bind_error _ _ _ _ _ failed with
  | inl runs => exact runs
  | inr behind =>
      obtain ⟨stop, middle, runs, failed⟩ := behind
      have size : node.header.regionSize ≤ 2 ^ 31 :=
        Nat.pow_le_pow_right (by omega) (Nat.le_of_lt_succ small)
      have ends := write_runs_stop crc offset codec _ _ _ _ _ _ runs
      have short : stop - blockSize < 2 ^ 32 := by
        simp only [blockSize] at ends ⊢
        omega
      dsimp only at failed
      rw [if_neg (Nat.not_le.mpr short)] at failed
      cases DeviceM.bind_error _ _ _ _ _ failed with
      | inl sector => exact absurd refused (write_at_refusal _ _ _ _ _ sector)
      | inr done =>
          obtain ⟨_, _, -, returned⟩ := done
          cases returned

theorem append_refused (codec : RunCodec κ ν) (header : BtreeNodeHeader) (run : SortedRun κ ν)
    (d after : Device) (err : StorageError) (small : header.regionSizeLog2.toNat < 32)
    (failed : appendSortedRunWith crc codec offset header run d = (.error err, after))
    (refused : Refusal err) : after = d := by
  cases DeviceM.bind_error _ _ _ _ _ failed with
  | inl encoding => exact (DeviceM.lift_error _ _ _ _ encoding).2
  | inr behind =>
      obtain ⟨⟨runHeader, payload⟩, same, lifted, failed⟩ := behind
      obtain ⟨-, unchanged⟩ := DeviceM.lift_ok _ _ _ _ lifted
      subst unchanged
      dsimp only at failed
      split at failed
      · cases failed
        rfl
      · next fits =>
          have size : header.regionSize ≤ 2 ^ 31 :=
            Nat.pow_le_pow_right (by omega) (Nat.le_of_lt_succ small)
          have short : alignUpToSector (blockSize + header.payloadUsed.toNat +
              (SortedRunHeader.layout.size + payload.length)) - blockSize < 2 ^ 32 := by
            unfold alignUpToSector
            simp only [blockSize] at fits ⊢
            omega
          cases DeviceM.bind_error _ _ _ _ _ failed with
          | inl first => exact absurd refused (write_at_refusal _ _ _ _ _ first)
          | inr behind =>
              obtain ⟨⟨⟩, middle, -, failed⟩ := behind
              cases DeviceM.bind_error _ _ _ _ _ failed with
              | inl second => exact absurd refused (write_at_refusal _ _ _ _ _ second)
              | inr behind =>
                  obtain ⟨⟨⟩, late, -, failed⟩ := behind
                  rw [if_neg (Nat.not_le.mpr short)] at failed
                  cases DeviceM.bind_error _ _ _ _ _ failed with
                  | inl sector => exact absurd refused (write_at_refusal _ _ _ _ _ sector)
                  | inr done =>
                      obtain ⟨_, _, -, returned⟩ := done
                      cases returned

/-- A table is one run, so that nothing of a table that is refused has been written. -/
theorem table_refused (codec : RunCodec κ ν) (kind : BtreeKind) (entries : List (κ × ν))
    (d after : Device) (err : StorageError)
    (failed : flushTable crc codec kind entries offset d = (.error err, after))
    (refused : Refusal err) : after = d := by
  have size : (tableNode kind entries).header.regionSizeLog2.toNat = 18 := by
    unfold tableNode
    cases entries <;> rfl
  cases DeviceM.bind_error _ _ _ _ _ failed with
  | inr done =>
      obtain ⟨_, _, -, returned⟩ := done
      cases returned
  | inl failed =>
      have runs := write_full_refused crc offset codec (tableNode kind entries) d after err
        (by rw [size]; decide) failed refused
      cases entries with
      | nil => cases runs
      | cons entry rest =>
          cases write_runs_refused crc offset codec _ _ [] _ _ _ _ runs refused with
          | inl stopped => exact stopped.2
          | inr went =>
              obtain ⟨_, _, _, _, -, -, -, -, -, returned⟩ := went
              cases returned

end

/-- What a region that is read has in its header sector and behind it. -/
theorem read_with_ok (crc : Crc) (reader : RunCodec κ ν) (d : Device) (offset : Nat)
    (kind : BtreeKind) (found : LoadedNode κ ν)
    (readable : readWith crc reader d offset kind = .ok found) :
    ∃ sector, d.readAt offset blockSize = .ok sector ∧
      BtreeNodeHeader.parse sector = .ok found.header ∧ found.header.kind = kind.toU16 ∧
      found.header.payloadUsed.toNat ≤ found.header.regionSize ∧
      readRuns crc reader d offset (blockSize + found.header.payloadUsed.toNat)
        found.header.sortedRunCount.toNat blockSize = .ok found.sortedRuns := by
  cases sectorRead : d.readAt offset blockSize with
  | error err =>
      rw [readWith, sectorRead] at readable
      cases readable
  | ok sector =>
      cases parsed : BtreeNodeHeader.parse sector with
      | error err =>
          rw [readWith, sectorRead] at readable
          simp only [bind, Except.bind, parsed] at readable
          cases readable
      | ok header =>
          rw [readWith, sectorRead] at readable
          simp only [bind, Except.bind, parsed] at readable
          split at readable
          · cases readable
          next kinds =>
          split at readable
          · cases readable
          next inside =>
          split at readable
          · cases readable
          next runs read =>
          cases readable
          exact ⟨sector, rfl, parsed, not_ne_iff.mp kinds, Nat.le_of_not_lt inside, read⟩

/-- A reader finds the runs again just when the header sector is the same and the runs behind it
read the same. -/
theorem read_again_iff (crc : Crc) (reader : RunCodec κ ν) (d after : Device) (offset : Nat)
    (kind : BtreeKind) (found : LoadedNode κ ν)
    (readable : readWith crc reader d offset kind = .ok found)
    (capacity : after.capacity = d.capacity)
    (below : ∀ address, address < offset + blockSize → after.bytes address = d.bytes address) :
    (∃ again, readWith crc reader after offset kind = .ok again ∧
        again.sortedRuns = found.sortedRuns) ↔
      readRuns crc reader after offset (blockSize + found.header.payloadUsed.toNat)
        found.header.sortedRunCount.toNat blockSize = .ok found.sortedRuns := by
  obtain ⟨sector, read, parsed, kinds, inside, -⟩ :=
    read_with_ok crc reader d offset kind found readable
  have same : AgreesOn offset blockSize d after :=
    ⟨capacity, fun address _ inside => below address inside⟩
  rw [← read_at_agrees same (Nat.le_refl _) (Nat.le_refl _)] at read
  rw [read_with_header crc reader after offset kind sector found.header read parsed kinds inside]
  cases readRuns crc reader after offset (blockSize + found.header.payloadUsed.toNat)
      found.header.sortedRunCount.toNat blockSize with
  | error err =>
      constructor
      · intro again
        obtain ⟨node, returned, -⟩ := again
        cases returned
      · intro returned
        cases returned
  | ok runs =>
      constructor
      · intro again
        obtain ⟨node, returned, same⟩ := again
        cases returned
        exact congrArg Except.ok same
      · intro returned
        exact ⟨_, rfl, Except.ok.inj returned⟩

theorem encode_flagged (crc : Crc) (codec : RunCodec κ ν) (run other : SortedRun κ ν)
    (same : flaggedRun codec run = flaggedRun codec other) :
    encodeRun crc codec run = encodeRun crc codec other := by
  simp only [flaggedRun, SortedRun.mk.injEq] at same
  obtain ⟨seq, journalSeq, flags, entries⟩ := same
  rw [encodeRun, encodeRun, seq, journalSeq, flags, entries]

/-- The reader finds in a stored run the run with the flag of the codec, and no other. -/
theorem reads_as_iff (crc : Crc) (codec : RunCodec κ ν) (run found : SortedRun κ ν)
    (header : SortedRunHeader) (payload : List UInt8)
    (encoded : encodeRun crc codec run = .ok (header, payload))
    (restores : codec.Restores crc run) :
    ReadsAs codec (header, payload) found ↔ found = flaggedRun codec run := by
  obtain ⟨accepted, decoded⟩ := restores header payload encoded
  obtain ⟨-, -, seq, journalSeq, -, -, flags, -⟩ := encode_run_ok crc codec run header payload encoded
  unfold ReadsAs
  rw [accepted, decoded, seq, journalSeq, flags]
  constructor
  · intro reads
    obtain ⟨-, sameSeq, sameJournal, sameFlags, entries⟩ := reads
    cases found
    cases sameSeq
    cases sameJournal
    cases sameFlags
    cases entries
    rfl
  · intro same
    rw [same]
    exact ⟨rfl, rfl, rfl, rfl, rfl⟩

private theorem read_stored_runs (crc : Crc) (codec : RunCodec κ ν) (d : Device)
    (offset payloadEnd : Nat)
    (runs : List (SortedRun κ ν)) (cursor stop : Nat) (inside : stop ≤ payloadEnd)
    (stored : RunsStored crc codec d offset runs cursor stop)
    (restores : ∀ run ∈ runs, codec.Restores crc run) :
    readRuns crc codec d offset payloadEnd runs.length cursor =
      .ok (runs.map (flaggedRun codec)) := by
  have read := read_runs_ok crc offset codec d payloadEnd (runs.map fun run => (codec, run)) (by
    intro pair member
    obtain ⟨run, present, rfl⟩ := List.mem_map.mp member
    exact restores run present) cursor stop inside stored
  rw [List.length_map, List.map_map] at read
  exact read

/-- In a region of one codec, runs repeat the old ones when one list starts with the other. -/
theorem repeats_stored_iff (crc : Crc) (codec : RunCodec κ ν) (d : Device)
    (offset size payloadEnd : Nat) (runs : List (SortedRun κ ν))
    (restores : ∀ run ∈ runs, codec.Restores crc run) :
    ∀ (old : List (SortedRun κ ν)) (cursor stop : Nat), stop ≤ payloadEnd →
      RunsStored crc codec d offset old cursor stop →
      (∀ run ∈ old, codec.Restores crc run) →
      (Repeats crc codec d offset payloadEnd (placedRuns crc codec size runs cursor) old.length
          cursor (old.map (flaggedRun codec)) ↔
        (runs.take (placedRuns crc codec size runs cursor).length).map (flaggedRun codec) <+:
            old.map (flaggedRun codec) ∨
          old.map (flaggedRun codec) <+:
            (runs.take (placedRuns crc codec size runs cursor).length).map (flaggedRun codec)) := by
  induction runs with
  | nil =>
      intro old cursor stop inside stored olds
      have read := read_stored_runs crc codec d offset payloadEnd old cursor stop inside stored olds
      exact ⟨fun _ => Or.inl List.nil_prefix, fun _ => read⟩
  | cons run runs ih =>
      intro old cursor stop inside stored olds
      rw [placedRuns]
      cases encoded : encodeRun crc codec run with
      | error err =>
          have read := read_stored_runs crc codec d offset payloadEnd old cursor stop inside stored
            olds
          exact ⟨fun _ => Or.inl List.nil_prefix, fun _ => read⟩
      | ok written =>
          obtain ⟨header, payload⟩ := written
          dsimp only
          split
          · have read := read_stored_runs crc codec d offset payloadEnd old cursor stop inside
              stored olds
            exact ⟨fun _ => Or.inl List.nil_prefix, fun _ => read⟩
          · cases old with
            | nil => exact ⟨fun _ => Or.inr List.nil_prefix, fun _ => rfl⟩
            | cons first old =>
                obtain ⟨oldHeader, oldPayload, oldEncoded, -, -, -, -, later⟩ := stored
                have next := mixed_stored_le crc offset d _ _ _ later
                have up := le_align_up
                  (cursor + (SortedRunHeader.layout.size + oldPayload.length))
                have more : ¬ payloadEnd ≤ cursor := by
                  have size : SortedRunHeader.layout.size = 32 := rfl
                  omega
                have reads := reads_as_iff crc codec run (flaggedRun codec first) header payload
                  encoded (restores run List.mem_cons_self)
                have rest : flaggedRun codec first = flaggedRun codec run →
                    RunsStored crc codec d offset old
                      (alignUpToSector (cursor + (SortedRunHeader.layout.size + payload.length)))
                      stop := by
                  intro same
                  cases (encode_flagged crc codec first run same).symm.trans oldEncoded |>.symm.trans
                    encoded
                  exact later
                have repeated := fun same => ih
                  (fun other member => restores other (List.mem_cons_of_mem run member)) old _ stop
                  inside (rest same)
                  (fun other member => olds other (List.mem_cons_of_mem first member))
                simp only [List.length_cons, List.map_cons, List.take_succ_cons, Repeats, if_neg more,
                  List.cons_prefix_cons]
                constructor
                · intro repeats
                  obtain ⟨found, tail, same, found_reads, behind⟩ := repeats
                  cases same
                  have equal := reads.mp found_reads
                  cases (repeated equal).mp behind with
                  | inl before => exact Or.inl ⟨equal.symm, before⟩
                  | inr before => exact Or.inr ⟨equal, before⟩
                · intro starts
                  have equal : flaggedRun codec first = flaggedRun codec run := by
                    cases starts with
                    | inl before => exact before.1.symm
                    | inr before => exact before.1
                  refine ⟨_, _, rfl, reads.mpr equal, (repeated equal).mpr ?_⟩
                  cases starts with
                  | inl before => exact Or.inl before.2
                  | inr before => exact Or.inr before.2

/-- A region that the writer of the call has stored keeps its runs when the runs in place and the
old ones are one list, as far as both go. -/
theorem harmless_stored_iff (crc : Crc) (codec : RunCodec κ ν) (d : Device) (offset : Nat)
    (kind : BtreeKind) (header : BtreeNodeHeader) (old : List (SortedRun κ ν))
    (node found : LoadedNode κ ν)
    (holds : RegionHolds crc d offset kind header (old.map fun run => (codec, run)))
    (olds : ∀ run ∈ old, codec.Restores crc run)
    (restores : ∀ run ∈ node.sortedRuns, codec.Restores crc run)
    (readable : readWith crc codec d offset kind = .ok found) :
    (RegionWrite.full node).Harmless crc codec codec d offset found ↔
      let placed := (node.sortedRuns.take (placedRuns crc codec node.header.regionSize
        node.sortedRuns blockSize).length).map (flaggedRun codec)
      placed <+: found.sortedRuns ∨ found.sortedRuns <+: placed := by
  rw [region_holds_read holds codec (by
    intro pair member
    obtain ⟨run, present, rfl⟩ := List.mem_map.mp member
    exact olds run present)] at readable
  cases readable
  have runs : (old.map fun run => (codec, run)).map (fun stored => flaggedRun stored.1 stored.2) =
      old.map (flaggedRun codec) := by
    rw [List.map_map]
    rfl
  have count : header.sortedRunCount.toNat = old.length := by
    rw [holds.count, List.length_map]
  simp only [RegionWrite.Harmless, runs, count]
  exact repeats_stored_iff crc codec d offset node.header.regionSize _ node.sortedRuns restores old
    blockSize _ (Nat.le_refl _) holds.stored olds

/-- The old runs are read after a writer failed just when the runs it left in place repeat them.
A run that cannot be appended never harms them. -/
theorem failed_write_keeps_runs_iff (crc : Crc) (codec reader : RunCodec κ ν) (offset : Nat)
    (kind : BtreeKind) (write : RegionWrite κ ν) (found : LoadedNode κ ν) (d after : Device)
    (err : StorageError) (small : write.header.regionSizeLog2.toNat < 32)
    (readable : readWith crc reader d offset kind = .ok found)
    (failed : write.perform crc codec offset d = (.error err, after)) (refused : Refusal err) :
    (∃ again, readWith crc reader after offset kind = .ok again ∧
        again.sortedRuns = found.sortedRuns) ↔
      write.Harmless crc codec reader d offset found := by
  cases write with
  | full node =>
      cases DeviceM.bind_error _ _ _ _ _ failed with
      | inr done =>
          obtain ⟨_, _, -, returned⟩ := done
          cases returned
      | inl failed =>
          have runs := write_full_refused crc offset codec node d after err small failed refused
          have narrow : node.header.regionSize < 2 ^ 32 :=
            Nat.pow_lt_pow_right (by omega) small
          have below := write_runs_below crc offset codec _ _ _ _ _ _ runs refused
          rw [read_again_iff crc reader d after offset kind found readable below.1 below.2]
          exact read_refused_runs crc offset codec reader _ narrow _ _ _ _ _ _ _ _ runs refused
  | append header run =>
      cases DeviceM.bind_error _ _ _ _ _ failed with
      | inr done =>
          obtain ⟨_, _, -, returned⟩ := done
          cases returned
      | inl failed =>
          have unchanged := append_refused crc offset codec header run d after err small failed
            refused
          rw [unchanged]
          exact ⟨fun _ => trivial, fun _ => ⟨found, readable, rfl⟩⟩

def storedSample : Device :=
  (sampleFormat.store crc32c 0 .cbor (sampleNode 0) [] sampleDevice).2

def sampleRewrite (first : SortedRun UInt64 (List UInt8)) : LoadedNode UInt64 (List UInt8) :=
  { LoadedNode.new .objectTable 0 14 with
    sortedRuns := first :: List.replicate 3 (sampleRun 0) }

def readSample : LoadedNode UInt64 (List UInt8) :=
  storedNode (.cbor sampleCbor) (sampleNode 0) (writtenHeader (sampleNode 0) 4096)

theorem stored_sample_holds :
    RegionHolds crc32c storedSample 0 .objectTable (writtenHeader (sampleNode 0) 4096)
      ([sampleRun 0].map fun run => (RunCodec.cbor sampleCbor, run)) := by
  have stored : (sampleFormat.store crc32c 0 .cbor (sampleNode 0) [] sampleDevice).1 =
      .ok (writtenHeader (sampleNode 0) 4096) := by
    decide +kernel
  exact (RegionFormat.store_holds crc32c sampleFormat 0 .objectTable .cbor _ [] _ sampleDevice _
    rfl rfl (by decide) (by decide) (DeviceM.ok_of_fst _ _ _ stored)).2

theorem sample_restores (run : SortedRun UInt64 (List UInt8)) (plain : run.flags = 0) :
    (RunCodec.cbor sampleCbor).Restores crc32c run := by
  apply cbor_restores
  rw [plain]
  decide

theorem stored_sample_read :
    readWith crc32c (.cbor sampleCbor) storedSample 0 .objectTable = .ok readSample := by
  apply region_holds_read stored_sample_holds
  intro pair member
  obtain ⟨run, present, rfl⟩ := List.mem_map.mp member
  have same : run = sampleRun 0 := List.mem_singleton.mp present
  apply sample_restores
  rw [same]
  rfl

/-- A rewrite that fails behind its first run leaves that run in the place of the old one. -/
theorem failed_rewrite_replaces_run :
    ∃ (after : Device) (err : StorageError),
      readWith crc32c (.cbor sampleCbor) storedSample 0 .objectTable = .ok readSample ∧
        (RegionWrite.full (sampleRewrite { sampleRun 0 with seq := 4 })).perform crc32c
          (.cbor sampleCbor) 0 storedSample = (.error err, after) ∧ Refusal err ∧
        ¬ ∃ again, readWith crc32c (.cbor sampleCbor) after 0 .objectTable = .ok again ∧
          again.sortedRuns = readSample.sortedRuns := by
  have stopped : ((RegionWrite.full (sampleRewrite { sampleRun 0 with seq := 4 })).perform crc32c
      (.cbor sampleCbor) 0 storedSample).1 = .error (.regionFull 16421 16384) := by
    decide +kernel
  have found : (readWith crc32c (.cbor sampleCbor) ((RegionWrite.full (sampleRewrite
      { sampleRun 0 with seq := 4 })).perform crc32c (.cbor sampleCbor) 0 storedSample).2 0
      .objectTable).map (fun node => node.sortedRuns.map SortedRun.seq) = .ok [4] := by
    decide +kernel
  refine ⟨_, _, stored_sample_read, DeviceM.error_of_fst _ _ _ stopped, trivial, ?_⟩
  intro kept
  obtain ⟨again, read, same⟩ := kept
  rw [read] at found
  have runs : again.sortedRuns.map SortedRun.seq = [4] := Except.ok.inj found
  rw [same] at runs
  exact absurd runs (by decide)

theorem failed_write_keeps_sample :
    ∃ after : Device,
      (RegionWrite.full (sampleRewrite (sampleRun 0))).perform crc32c (.cbor sampleCbor) 0
          storedSample = (.error (.regionFull 16421 16384), after) ∧
        ∃ again, readWith crc32c (.cbor sampleCbor) after 0 .objectTable = .ok again ∧
          again.sortedRuns = readSample.sortedRuns := by
  have stopped : ((RegionWrite.full (sampleRewrite (sampleRun 0))).perform crc32c
      (.cbor sampleCbor) 0 storedSample).1 = .error (.regionFull 16421 16384) := by
    decide +kernel
  have failed := DeviceM.error_of_fst _ _ _ stopped
  have placed : (placedRuns crc32c (.cbor sampleCbor)
      (sampleRewrite (sampleRun 0)).header.regionSize (sampleRewrite (sampleRun 0)).sortedRuns
      blockSize).length = 3 := by
    decide +kernel
  have harmless := harmless_stored_iff crc32c (.cbor sampleCbor) storedSample 0 .objectTable _
    [sampleRun 0] (sampleRewrite (sampleRun 0)) readSample stored_sample_holds (by
      intro run member
      exact sample_restores run (by rw [List.mem_singleton.mp member]; rfl)) (by
      intro run member
      apply sample_restores
      cases List.mem_cons.mp member with
      | inl first =>
          rw [first]
          rfl
      | inr later =>
          rw [List.eq_of_mem_replicate later]
          rfl) stored_sample_read
  refine ⟨_, failed, (failed_write_keeps_runs_iff crc32c _ _ 0 .objectTable _ _
    storedSample _ _ (by decide) stored_sample_read failed trivial).mpr (harmless.mpr ?_)⟩
  rw [placed]
  exact Or.inr ⟨_, rfl⟩

end Mimisbrunnr.Storage
