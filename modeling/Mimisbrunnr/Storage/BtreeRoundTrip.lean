import Mimisbrunnr.Storage.Btree
import Mimisbrunnr.Storage.PackRoundTrip

/-!
# Regions are read back

A region that was written reads back its runs, on every device that holds the
same bytes there, and the writer touches nothing outside the region.
-/

namespace Mimisbrunnr.Storage

set_option autoImplicit false

open Mimisbrunnr.Lib.ByteStore
open Mimisbrunnr.Lib.Layout

variable {κ ν : Type}

theorem le_align_up (value : Nat) : value ≤ alignUpToSector value := by
  unfold alignUpToSector
  simp only [blockSize]
  omega

theorem align_up_le (value size : Nat) (whole : blockSize ∣ size) (inside : value ≤ size) :
    alignUpToSector value ≤ size := by
  obtain ⟨sectors, rfl⟩ := whole
  unfold alignUpToSector
  simp only [blockSize] at inside ⊢
  omega

private theorem block_size_dvd_align (value : Nat) : blockSize ∣ alignUpToSector value :=
  Nat.dvd_mul_left _ _

private theorem block_size_dvd_region (header : BtreeNodeHeader)
    (large : 12 ≤ header.regionSizeLog2.toNat) : blockSize ∣ header.regionSize :=
  Nat.pow_dvd_pow 2 large

private theorem parse_sector (header : BtreeNodeHeader) (magic : header.magic = btreeMagic) :
    BtreeNodeHeader.parse header.sector = .ok header := by
  have enough : ¬ header.sector.length < BtreeNodeHeader.layout.size := by
    rw [BtreeNodeHeader.sector, List.length_append, BtreeNodeHeader.layout.length_to_bytes]
    omega
  have found : BtreeNodeHeader.layout.ofBytes
      (header.sector.take BtreeNodeHeader.layout.size) = header :=
    Pod.of_bytes_take _ _ _
  rw [BtreeNodeHeader.parse, if_neg enough]
  simp only [found]
  rw [if_neg (by simp [magic])]

@[simp] theorem length_header_sector (header : BtreeNodeHeader) : header.sector.length = blockSize := by
  rw [BtreeNodeHeader.sector, List.length_append, BtreeNodeHeader.layout.length_to_bytes,
    List.length_replicate]
  rfl

/-- A reader finds the entries of a run in what a codec stores it as. -/
def RunCodec.Reads (crc : Crc) (reader codec : RunCodec κ ν) (run : SortedRun κ ν) : Prop :=
  ∀ header payload, encodeRun crc codec run = .ok (header, payload) →
    reader.refuse header.flags = none ∧ reader.decode header payload = .ok run.entries

def RunCodec.Restores (crc : Crc) (codec : RunCodec κ ν) (run : SortedRun κ ν) : Prop :=
  codec.Reads crc codec run

theorem encode_run_ok (crc : Crc) (codec : RunCodec κ ν) (run : SortedRun κ ν)
    (header : SortedRunHeader) (payload : List UInt8)
    (ok : encodeRun crc codec run = .ok (header, payload)) :
    codec.encode run.entries = .ok payload ∧ header.magic = sortedRunMagic ∧
      header.seq = run.seq ∧ header.journalSeq = run.journalSeq ∧
      header.entryCount = UInt32.ofNat run.entries.length ∧
      header.payloadLength = UInt32.ofNat payload.length ∧
      header.flags = run.flags ||| codec.flags ∧ header.verify crc payload = true := by
  cases encoded : codec.encode run.entries with
  | error err =>
      rw [encodeRun, encoded] at ok
      cases ok
  | ok bytes =>
      rw [encodeRun, encoded] at ok
      cases ok
      refine ⟨rfl, rfl, rfl, rfl, rfl, rfl, rfl, ?_⟩
      exact decide_eq_true rfl

theorem cbor_decodes (crc : Crc) (cbor : Cbor (List (κ × ν))) (run : SortedRun κ ν)
    (header : SortedRunHeader) (payload : List UInt8)
    (ok : encodeRun crc (RunCodec.cbor cbor) run = .ok (header, payload)) :
    header.flags = run.flags ∧ decodeCbor cbor payload = .ok run.entries := by
  have facts := encode_run_ok crc _ run header payload ok
  constructor
  · rw [facts.2.2.2.2.2.2.1]
    exact UInt32.or_zero
  · have encoded := facts.1
    simp only [RunCodec.cbor] at encoded
    cases written : cbor.encode run.entries with
    | error err =>
        rw [written] at encoded
        cases encoded
    | ok bytes =>
        rw [written] at encoded
        cases encoded
        have back := cbor.decode_encode _ _ written
        simp only [decodeCbor, back]
        rfl

theorem cbor_restores (crc : Crc) (cbor : Cbor (List (κ × ν))) (run : SortedRun κ ν)
    (plain : run.flags &&& sortedRunFlagPackedKeys = 0) :
    (RunCodec.cbor cbor).Restores crc run := by
  intro header payload ok
  obtain ⟨flags, decoded⟩ := cbor_decodes crc cbor run header payload ok
  constructor
  · have refuse : (RunCodec.cbor cbor).refuse header.flags =
        if header.flags &&& sortedRunFlagPackedKeys ≠ 0 then some (.unsupportedFormatVersion 0)
        else none := rfl
    rw [refuse, flags, if_neg (by simp [plain])]
  · exact decoded

/-- The reader of packed runs takes a run without the flag for one of CBOR. -/
theorem packed_reads_cbor (crc : Crc) (shape : PackableKey κ) (values : ValueBytes ν)
    (valueSize : Nat) (forceVarint : Bool) (cbor : Cbor (List (κ × ν))) (run : SortedRun κ ν)
    (plain : run.flags &&& sortedRunFlagPackedKeys = 0) :
    (RunCodec.packed shape values valueSize forceVarint cbor).Reads crc (RunCodec.cbor cbor)
      run := by
  intro header payload ok
  obtain ⟨flags, decoded⟩ := cbor_decodes crc cbor run header payload ok
  refine ⟨rfl, ?_⟩
  simp only [RunCodec.packed]
  rw [if_neg (by simp [flags, plain])]
  exact decoded

/-- What packed runs have to satisfy to come back. -/
structure PacksBack (values : ValueBytes ν) (valueSize : Nat) (forceVarint : Bool)
    (entries : List (κ × ν)) : Prop where
  few : entries.length < 2 ^ 32
  back : ∀ entry ∈ entries, values.fromBytes (values.toBytes entry.2) = entry.2
  short : ∀ entry ∈ entries, (values.toBytes entry.2).length < 2 ^ 64
  sized : forceVarint = false → ∀ entry ∈ entries, (values.toBytes entry.2).length = valueSize

private theorem forced_kind (values : List (List UInt8)) (some_value : values ≠ []) :
    selectKind values true = .varint := by
  cases values with
  | nil => exact absurd rfl some_value
  | cons first rest => rfl

private theorem select_format_kind (shape : PackableKey κ) (entries : List (κ × List UInt8))
    (forceVarint : Bool) (head : SortedRunKeyFormat) (fields : List FieldFormat)
    (valuePrefix : List UInt8)
    (selected : selectFormatWithHint shape entries forceVarint = .ok (head, fields, valuePrefix)) :
    head.valueSizeKind = (selectKind (entries.map Prod.snd) forceVarint).toU8 := by
  unfold selectFormatWithHint at selected
  split at selected
  · cases selected
  split at selected
  · cases selected
  split at selected
  · cases selected
  cases selected
  rfl

private theorem or_and_cancel (left right : UInt32) : (left ||| right) &&& right = right := by
  apply UInt32.eq_of_toBitVec_eq
  ext index
  simp only [UInt32.toBitVec_and, UInt32.toBitVec_or, BitVec.getElem_and, BitVec.getElem_or]
  cases left.toBitVec[index] <;> simp

/-- How a run under the packed codec was written does not matter to its reader, as long as a
reader of values of one size is told the size. -/
theorem packed_reads (crc : Crc) (shape : PackableKey κ) (lawful : shape.Lawful)
    (values : ValueBytes ν) (valueSize : Nat) (writeVarint readVarint : Bool)
    (cbor : Cbor (List (κ × ν))) (run : SortedRun κ ν) (few : run.entries.length < 2 ^ 32)
    (back : ∀ entry ∈ run.entries, values.fromBytes (values.toBytes entry.2) = entry.2)
    (short : ∀ entry ∈ run.entries, (values.toBytes entry.2).length < 2 ^ 64)
    (sized : selectKind (run.entries.map fun entry => values.toBytes entry.2) writeVarint = .fixed →
      ∀ entry ∈ run.entries, (values.toBytes entry.2).length = valueSize) :
    (RunCodec.packed shape values valueSize readVarint cbor).Reads crc
      (RunCodec.packed shape values valueSize writeVarint cbor) run := by
  intro header payload ok
  have facts := encode_run_ok crc _ run header payload ok
  refine ⟨rfl, ?_⟩
  let entries := run.entries.map fun entry => (entry.1, values.toBytes entry.2)
  obtain ⟨head, fields, valuePrefix, bytes, selected, encoded, decoded⟩ :=
    packed_run_read_back shape lawful entries writeVarint (by
      intro entry member
      obtain ⟨original, present, rfl⟩ := List.mem_map.mp member
      exact short original present)
  have written : (RunCodec.packed shape values valueSize writeVarint cbor).encode run.entries =
      .ok bytes := by
    simp only [RunCodec.packed]
    rw [selected]
    simp only [Except.mapError, bind, Except.bind]
    rw [encoded]
  rw [written] at facts
  have same : bytes = payload := Except.ok.inj facts.1
  subst same
  have flagged : header.flags &&& sortedRunFlagPackedKeys ≠ 0 := by
    rw [facts.2.2.2.2.2.2.1]
    have flags : (RunCodec.packed shape values valueSize writeVarint cbor).flags =
        sortedRunFlagPackedKeys := rfl
    rw [flags, or_and_cancel]
    decide
  have count : header.entryCount.toNat = entries.length := by
    rw [facts.2.2.2.2.1, UInt32.toNat_ofNat', List.length_map]
    exact Nat.mod_eq_of_lt few
  have sizes : head.valueSizeKind = ValueSizeKind.fixed.toU8 →
      ∀ entry ∈ entries, entry.2.length = valueSize := by
    intro fixed entry member
    obtain ⟨original, present, rfl⟩ := List.mem_map.mp member
    have kind := select_format_kind shape entries writeVarint head fields valuePrefix selected
    rw [kind, List.map_map] at fixed
    apply sized _ original present
    change (selectKind (run.entries.map fun entry => values.toBytes entry.2) writeVarint).toU8 =
      ValueSizeKind.fixed.toU8 at fixed
    cases chosen : selectKind (run.entries.map fun entry => values.toBytes entry.2) writeVarint with
    | fixed => rfl
    | varint =>
        rw [chosen] at fixed
        exact absurd fixed (by decide)
  have restored : entries.map (fun entry => (entry.1, values.fromBytes entry.2)) = run.entries := by
    rw [List.map_map]
    conv_rhs => rw [← List.map_id run.entries]
    apply List.map_congr_left
    intro entry member
    simp only [Function.comp_apply, back entry member]
    rfl
  have final := decoded valueSize sizes
  simp only [RunCodec.packed]
  rw [if_pos flagged, count, final]
  simp only [Except.mapError, bind, Except.bind]
  rw [restored]

private theorem packed_restores (crc : Crc) (shape : PackableKey κ) (lawful : shape.Lawful)
    (values : ValueBytes ν) (valueSize : Nat) (forceVarint : Bool) (cbor : Cbor (List (κ × ν)))
    (run : SortedRun κ ν) (packs : PacksBack values valueSize forceVarint run.entries) :
    (RunCodec.packed shape values valueSize forceVarint cbor).Restores crc run := by
  apply packed_reads crc shape lawful values valueSize forceVarint forceVarint cbor run packs.few
    packs.back packs.short
  intro fixed entry member
  cases forced : forceVarint with
  | false => exact packs.sized forced entry member
  | true =>
      rw [forced, forced_kind _ (by
        intro none
        rw [List.map_eq_nil_iff] at none
        rw [none] at member
        exact absurd member List.not_mem_nil)] at fixed
      cases fixed

/-- The runs lie from a cursor on, each under its codec and at a sector boundary behind the
last. -/
def MixedStored (crc : Crc) (d : Device) (offset : Nat) :
    List (RunCodec κ ν × SortedRun κ ν) → Nat → Nat → Prop
  | [], cursor, stop => stop = cursor
  | (codec, run) :: runs, cursor, stop => ∃ header payload,
      encodeRun crc codec run = .ok (header, payload) ∧ payload.length < 2 ^ 32 ∧
      offset + cursor + SortedRunHeader.layout.size + payload.length ≤ d.capacity ∧
      read d.bytes (offset + cursor) SortedRunHeader.layout.size =
        SortedRunHeader.layout.toBytes header ∧
      read d.bytes (offset + cursor + SortedRunHeader.layout.size) payload.length = payload ∧
      MixedStored crc d offset runs
        (alignUpToSector (cursor + (SortedRunHeader.layout.size + payload.length))) stop

def RunsStored (crc : Crc) (codec : RunCodec κ ν) (d : Device) (offset : Nat)
    (runs : List (SortedRun κ ν)) (cursor stop : Nat) : Prop :=
  MixedStored crc d offset (runs.map fun run => (codec, run)) cursor stop

section

variable (crc : Crc) (offset : Nat)

theorem mixed_stored_le (d : Device) (runs : List (RunCodec κ ν × SortedRun κ ν)) :
    ∀ cursor stop, MixedStored crc d offset runs cursor stop → cursor ≤ stop := by
  induction runs with
  | nil =>
      intro cursor stop stored
      exact Nat.le_of_eq stored.symm
  | cons run runs ih =>
      intro cursor stop stored
      obtain ⟨header, payload, -, -, -, -, -, later⟩ := stored
      have next := ih _ _ later
      have up := le_align_up (cursor + (SortedRunHeader.layout.size + payload.length))
      omega

theorem mixed_stored_sectors (d : Device) (runs : List (RunCodec κ ν × SortedRun κ ν)) :
    ∀ cursor stop, blockSize ∣ cursor → MixedStored crc d offset runs cursor stop →
      cursor + blockSize * runs.length ≤ stop ∧ blockSize ∣ stop := by
  induction runs with
  | nil =>
      intro cursor stop aligned stored
      have same : stop = cursor := stored
      rw [same, List.length_nil]
      exact ⟨Nat.le_refl _, aligned⟩
  | cons run runs ih =>
      intro cursor stop aligned stored
      obtain ⟨header, payload, -, -, -, -, -, later⟩ := stored
      have next := ih _ _ (block_size_dvd_align _) later
      have size : SortedRunHeader.layout.size = 32 := rfl
      refine ⟨?_, next.2⟩
      obtain ⟨sectors, rfl⟩ := aligned
      have start := next.1
      rw [List.length_cons]
      simp only [alignUpToSector, blockSize, size] at start ⊢
      omega

theorem mixed_stored_agrees {d e : Device} (runs : List (RunCodec κ ν × SortedRun κ ν))
    (low size : Nat) (agrees : AgreesOn (offset + low) (size - low) d e) :
    ∀ cursor stop, low ≤ cursor → stop ≤ size → MixedStored crc d offset runs cursor stop →
      MixedStored crc e offset runs cursor stop := by
  induction runs with
  | nil =>
      intro cursor stop _ _ stored
      exact stored
  | cons run runs ih =>
      intro cursor stop above inside stored
      obtain ⟨header, payload, encoded, short, room, first, second, later⟩ := stored
      have next := mixed_stored_le crc offset d runs _ _ later
      have up := le_align_up (cursor + (SortedRunHeader.layout.size + payload.length))
      refine ⟨header, payload, encoded, short, ?_, ?_, ?_, ih _ _ (by omega) inside later⟩
      · rw [agrees.capacity]
        exact room
      · rw [read_agrees (agrees_mono agrees (by omega) (by omega)), first]
      · rw [read_agrees (agrees_mono agrees (by omega) (by omega)), second]

theorem mixed_stored_append (d : Device) (runs more : List (RunCodec κ ν × SortedRun κ ν)) :
    ∀ cursor middle stop, MixedStored crc d offset runs cursor middle →
      MixedStored crc d offset more middle stop →
      MixedStored crc d offset (runs ++ more) cursor stop := by
  induction runs with
  | nil =>
      intro cursor middle stop stored behind
      have same : middle = cursor := stored
      rw [same] at behind
      exact behind
  | cons run runs ih =>
      intro cursor middle stop stored behind
      obtain ⟨header, payload, encoded, short, room, first, second, later⟩ := stored
      exact ⟨header, payload, encoded, short, room, first, second, ih _ _ _ later behind⟩

/-- What the two writes of a run leave. -/
theorem write_run_ok (codec : RunCodec κ ν) (run : SortedRun κ ν) (cursor size : Nat)
    (header : SortedRunHeader) (payload : List UInt8) (d middle after : Device)
    (encoded : encodeRun crc codec run = .ok (header, payload))
    (fits : cursor + (SortedRunHeader.layout.size + payload.length) ≤ size)
    (narrow : size < 2 ^ 32)
    (first : DeviceM.writeAt (offset + cursor) (SortedRunHeader.layout.toBytes header) d =
      (.ok (), middle))
    (second : DeviceM.writeAt (offset + cursor + SortedRunHeader.layout.size) payload middle =
      (.ok (), after)) :
    ChangesWithin (offset + cursor) (size - cursor) d after ∧
      MixedStored crc after offset [(codec, run)] cursor
        (alignUpToSector (cursor + (SortedRunHeader.layout.size + payload.length))) := by
  have width := SortedRunHeader.layout.length_to_bytes header
  have headerWrite := changes_within_write _ _ _ _ first
  have payloadWrite := changes_within_write _ _ _ _ second
  have headerRead := read_of_write _ _ _ _ first
  have payloadRead := read_of_write _ _ _ _ second
  rw [width] at headerWrite headerRead
  refine ⟨?_, header, payload, encoded, by omega, payloadRead.2, ?_, payloadRead.1, rfl⟩
  · exact changes_within_trans (changes_within_mono headerWrite (by omega) (by omega))
      (changes_within_mono payloadWrite (by omega) (by omega))
  · have untouched : AgreesOn (offset + cursor) SortedRunHeader.layout.size middle after :=
      agrees_of_apart payloadWrite (by unfold Apart; omega)
    rw [read_agrees untouched, headerRead.1]

private theorem write_runs_ok (codec : RunCodec κ ν) (size : Nat) (whole : blockSize ∣ size)
    (narrow : size < 2 ^ 32) (runs : List (SortedRun κ ν)) :
    ∀ cursor stop d after, cursor ≤ size →
      writeRuns crc codec offset size runs cursor d = (.ok stop, after) →
      ChangesWithin (offset + cursor) (size - cursor) d after ∧
        RunsStored crc codec after offset runs cursor stop ∧ stop ≤ size := by
  induction runs with
  | nil =>
      intro cursor stop d after inside ok
      obtain ⟨same, unchanged⟩ := DeviceM.pure_ok _ _ _ _ ok
      subst same
      subst unchanged
      exact ⟨changes_within_refl _ _ _, rfl, inside⟩
  | cons run runs ih =>
      intro cursor stop d after inside ok
      obtain ⟨⟨header, payload⟩, same, lifted, ok⟩ := DeviceM.bind_ok _ _ _ _ _ ok
      obtain ⟨encoded, unchanged⟩ := DeviceM.lift_ok _ _ _ _ lifted
      subst unchanged
      dsimp only at ok
      split at ok
      · cases ok
      · next fits =>
          obtain ⟨⟨⟩, middle, first, ok⟩ := DeviceM.bind_ok _ _ _ _ _ ok
          obtain ⟨⟨⟩, late, second, ok⟩ := DeviceM.bind_ok _ _ _ _ _ ok
          have up := le_align_up (cursor + (SortedRunHeader.layout.size + payload.length))
          have below := align_up_le (cursor + (SortedRunHeader.layout.size + payload.length)) size
            whole (by omega)
          obtain ⟨here, written⟩ := write_run_ok crc offset codec run cursor size header payload _
            _ _ encoded (Nat.le_of_not_lt fits) narrow first second
          obtain ⟨changes, stored, within⟩ := ih _ _ _ _ below ok
          have later : ChangesWithin (offset + cursor) (size - cursor) late after :=
            changes_within_mono changes (by omega) (by omega)
          have untouched : AgreesOn (offset + cursor)
              (alignUpToSector (cursor + (SortedRunHeader.layout.size + payload.length)) - cursor)
              late after := agrees_of_apart changes (by unfold Apart; omega)
          have kept := mixed_stored_agrees crc offset [(codec, run)] cursor _ untouched cursor _
            (Nat.le_refl _) (Nat.le_refl _) written
          exact ⟨changes_within_trans here later,
            mixed_stored_append crc offset after _ _ _ _ _ kept stored, within⟩

def flaggedRun (codec : RunCodec κ ν) (run : SortedRun κ ν) : SortedRun κ ν :=
  { run with flags := run.flags ||| codec.flags }

/-- How an encoded run is read, with the runs behind it. -/
theorem read_encoded_run (reader codec : RunCodec κ ν) (run : SortedRun κ ν) (d : Device)
    (payloadEnd cursor count : Nat) (header : SortedRunHeader) (payload : List UInt8)
    (more : cursor < payloadEnd)
    (encoded : encodeRun crc codec run = .ok (header, payload)) (short : payload.length < 2 ^ 32)
    (room : offset + cursor + SortedRunHeader.layout.size + payload.length ≤ d.capacity)
    (first : read d.bytes (offset + cursor) SortedRunHeader.layout.size =
      SortedRunHeader.layout.toBytes header)
    (second : read d.bytes (offset + cursor + SortedRunHeader.layout.size) payload.length =
      payload) :
    readRuns crc reader d offset payloadEnd (count + 1) cursor =
      (match reader.refuse header.flags with
      | some err => .error err
      | none => do
          let entries ← reader.decode header payload
          let later ← readRuns crc reader d offset payloadEnd count
            (alignUpToSector (cursor + (SortedRunHeader.layout.size + payload.length)))
          .ok (⟨header.seq, header.journalSeq, header.flags, entries⟩ :: later)) := by
  have facts := encode_run_ok crc codec run header payload encoded
  have length : header.payloadLength.toNat = payload.length := by
    rw [facts.2.2.2.2.2.1, UInt32.toNat_ofNat']
    exact Nat.mod_eq_of_lt short
  have parsed : SortedRunHeader.layout.ofBytes (SortedRunHeader.layout.toBytes header) =
      header := SortedRunHeader.layout.of_to_bytes header
  rw [readRuns, if_neg (Nat.not_le.mpr more), Device.read_at_ok d _ _ (by omega), first]
  simp only [bind, Except.bind]
  rw [parsed, if_neg (by simp [facts.2.1])]
  cases refused : reader.refuse header.flags with
  | some err => rfl
  | none =>
      simp only
      rw [length, Device.read_at_ok d _ _ room, second]
      simp only
      rw [if_pos facts.2.2.2.2.2.2.2]

/-- How a stored run is read that the reader accepts. -/
theorem read_run_step (reader codec : RunCodec κ ν) (run : SortedRun κ ν) (d : Device)
    (payloadEnd cursor count : Nat) (header : SortedRunHeader) (payload : List UInt8)
    (more : cursor < payloadEnd)
    (encoded : encodeRun crc codec run = .ok (header, payload)) (short : payload.length < 2 ^ 32)
    (room : offset + cursor + SortedRunHeader.layout.size + payload.length ≤ d.capacity)
    (first : read d.bytes (offset + cursor) SortedRunHeader.layout.size =
      SortedRunHeader.layout.toBytes header)
    (second : read d.bytes (offset + cursor + SortedRunHeader.layout.size) payload.length =
      payload)
    (accepted : reader.refuse header.flags = none) :
    readRuns crc reader d offset payloadEnd (count + 1) cursor = (do
      let entries ← reader.decode header payload
      let later ← readRuns crc reader d offset payloadEnd count
        (alignUpToSector (cursor + (SortedRunHeader.layout.size + payload.length)))
      .ok (⟨run.seq, run.journalSeq, run.flags ||| codec.flags, entries⟩ :: later)) := by
  have facts := encode_run_ok crc codec run header payload encoded
  rw [read_encoded_run crc offset reader codec run d payloadEnd cursor count header payload more
    encoded short room first second, accepted, facts.2.2.1, facts.2.2.2.1,
    facts.2.2.2.2.2.2.1]

theorem read_runs_ok (reader : RunCodec κ ν) (d : Device) (payloadEnd : Nat)
    (runs : List (RunCodec κ ν × SortedRun κ ν))
    (reads : ∀ stored ∈ runs, reader.Reads crc stored.1 stored.2) :
    ∀ cursor stop, stop ≤ payloadEnd → MixedStored crc d offset runs cursor stop →
      readRuns crc reader d offset payloadEnd runs.length cursor =
        .ok (runs.map fun stored => flaggedRun stored.1 stored.2) := by
  induction runs with
  | nil =>
      intro cursor stop _ _
      rfl
  | cons run runs ih =>
      intro cursor stop inside stored
      obtain ⟨header, payload, encoded, short, room, first, second, later⟩ := stored
      have next := mixed_stored_le crc offset d runs _ _ later
      have up := le_align_up (cursor + (SortedRunHeader.layout.size + payload.length))
      have back := reads run List.mem_cons_self header payload encoded
      have more : cursor < payloadEnd := by
        have size : SortedRunHeader.layout.size = 32 := rfl
        omega
      rw [List.length_cons, read_run_step crc offset reader run.1 run.2 d payloadEnd cursor _ header
        payload more encoded short room first second back.1, back.2]
      simp only [bind, Except.bind]
      rw [ih (fun other member => reads other (List.mem_cons_of_mem run member)) _ _ inside later]
      rfl

end

/-- A region on the device: its header sector, and the runs behind it as the header says. -/
structure RegionHolds (crc : Crc) (d : Device) (offset : Nat) (kind : BtreeKind)
    (header : BtreeNodeHeader) (runs : List (RunCodec κ ν × SortedRun κ ν)) : Prop where
  magic : header.magic = btreeMagic
  kinds : header.kind = kind.toU16
  large : 12 ≤ header.regionSizeLog2.toNat
  small : header.regionSizeLog2.toNat < 32
  sector : d.readAt offset blockSize = .ok header.sector
  stored : MixedStored crc d offset runs blockSize (blockSize + header.payloadUsed.toNat)
  inside : blockSize + header.payloadUsed.toNat ≤ header.regionSize
  count : header.sortedRunCount.toNat = runs.length

/-- Reading a region whose header is in order is reading its runs. -/
theorem read_with_header (crc : Crc) (reader : RunCodec κ ν) (d : Device) (offset : Nat)
    (kind : BtreeKind) (sector : List UInt8) (header : BtreeNodeHeader)
    (read : d.readAt offset blockSize = .ok sector)
    (parsed : BtreeNodeHeader.parse sector = .ok header) (kinds : header.kind = kind.toU16)
    (inside : header.payloadUsed.toNat ≤ header.regionSize) :
    readWith crc reader d offset kind = (do
      let found ← readRuns crc reader d offset (blockSize + header.payloadUsed.toNat)
        header.sortedRunCount.toNat blockSize
      .ok
        { header := header
          sortedRuns := found
          mergedView := none
          pendingJournal := []
          dirty := false
          pin := JournalPin.default }) := by
  rw [readWith, read]
  simp only [bind, Except.bind]
  rw [parsed]
  simp only
  rw [if_neg (by simp [kinds]), if_neg (Nat.not_lt.mpr inside)]

theorem region_size_bounds (header : BtreeNodeHeader) (large : 12 ≤ header.regionSizeLog2.toNat)
    (small : header.regionSizeLog2.toNat < 32) :
    blockSize ∣ header.regionSize ∧ blockSize ≤ header.regionSize ∧
      header.regionSize < 2 ^ 32 := by
  have whole := block_size_dvd_region header large
  have narrow : header.regionSize < 2 ^ 32 := Nat.pow_lt_pow_right (by omega) small
  exact ⟨whole, Nat.le_of_dvd (Nat.two_pow_pos _) whole, narrow⟩

section

variable {crc : Crc} {d e : Device} {offset : Nat} {kind : BtreeKind} {header : BtreeNodeHeader}
  {runs : List (RunCodec κ ν × SortedRun κ ν)}

private theorem region_holds_agrees (holds : RegionHolds crc d offset kind header runs)
    (agrees : AgreesOn offset header.regionSize d e) :
    RegionHolds crc e offset kind header runs := by
  have bounds := region_size_bounds header holds.large holds.small
  refine ⟨holds.magic, holds.kinds, holds.large, holds.small, ?_, ?_, holds.inside, holds.count⟩
  · rw [read_at_agrees agrees (Nat.le_refl _) (by omega)]
    exact holds.sector
  · exact mixed_stored_agrees crc offset runs blockSize header.regionSize
      (agrees_mono agrees (by omega) (by omega)) _ _ (Nat.le_refl _) holds.inside holds.stored

/-- Reading a region is reading its runs. -/
theorem region_holds_runs (holds : RegionHolds crc d offset kind header runs)
    (reader : RunCodec κ ν) :
    readWith crc reader d offset kind = (do
      let found ← readRuns crc reader d offset (blockSize + header.payloadUsed.toNat) runs.length
        blockSize
      .ok
        { header := header
          sortedRuns := found
          mergedView := none
          pendingJournal := []
          dirty := false
          pin := JournalPin.default }) := by
  have inside := holds.inside
  rw [read_with_header crc reader d offset kind header.sector header holds.sector
    (parse_sector header holds.magic) holds.kinds (by omega), holds.count]

/-- A region is read back by a reader of all its runs. -/
theorem region_holds_read (holds : RegionHolds crc d offset kind header runs)
    (reader : RunCodec κ ν) (reads : ∀ stored ∈ runs, reader.Reads crc stored.1 stored.2) :
    readWith crc reader d offset kind =
      .ok
        { header := header
          sortedRuns := runs.map fun stored => flaggedRun stored.1 stored.2
          mergedView := none
          pendingJournal := []
          dirty := false
          pin := JournalPin.default } := by
  rw [region_holds_runs holds reader,
    read_runs_ok crc offset reader d _ runs reads blockSize _ (Nat.le_refl _) holds.stored]
  rfl

theorem region_holds_count (holds : RegionHolds crc d offset kind header runs) :
    blockSize * (runs.length + 1) ≤ header.regionSize := by
  have sectors := mixed_stored_sectors crc offset d runs _ _ (Nat.dvd_refl _) holds.stored
  have inside := holds.inside
  rw [Nat.mul_add]
  omega

theorem region_holds_aligned (holds : RegionHolds crc d offset kind header runs) :
    blockSize ∣ header.payloadUsed.toNat := by
  have sectors := mixed_stored_sectors crc offset d runs _ _ (Nat.dvd_refl _) holds.stored
  exact (Nat.dvd_add_right (Nat.dvd_refl _)).mp sectors.2

end

/-- What writing a region has done. -/
theorem write_full_ok (crc : Crc) (codec : RunCodec κ ν) (offset : Nat)
    (node written : LoadedNode κ ν) (d after : Device)
    (ok : writeFullWith crc codec offset node d = (.ok written, after))
    (large : 12 ≤ node.header.regionSizeLog2.toNat)
    (small : node.header.regionSizeLog2.toNat < 32) :
    ∃ stop, written.header = writtenHeader node (stop - blockSize) ∧
      ChangesWithin offset node.header.regionSize d after ∧
      after.readAt offset blockSize = .ok written.header.sector ∧
      RunsStored crc codec after offset node.sortedRuns blockSize stop ∧
      stop ≤ node.header.regionSize := by
  have bounds := region_size_bounds node.header large small
  obtain ⟨stop, middle, runs, ok⟩ := DeviceM.bind_ok _ _ _ _ _ ok
  obtain ⟨changes, stored, inside⟩ := write_runs_ok crc offset codec _ bounds.1 bounds.2.2
    node.sortedRuns _ _ _ _ bounds.2.1 runs
  dsimp only at ok
  split at ok
  · cases ok
  · obtain ⟨⟨⟩, late, sector, ok⟩ := DeviceM.bind_ok _ _ _ _ _ ok
    obtain ⟨same, unchanged⟩ := DeviceM.pure_ok _ _ _ _ ok
    subst same
    subst unchanged
    have length := length_header_sector (writtenHeader node (stop - blockSize))
    have headerWrite := changes_within_write _ _ _ _ sector
    have headerRead := read_of_write _ _ _ _ sector
    rw [length] at headerWrite headerRead
    refine ⟨stop, rfl, ?_, ?_, ?_, inside⟩
    · exact changes_within_trans (changes_within_mono changes (by omega) (by omega))
        (changes_within_mono headerWrite (by omega) (by omega))
    · rw [Device.read_at_ok _ _ _ headerRead.2, headerRead.1]
    · have kept : AgreesOn (offset + blockSize) (node.header.regionSize - blockSize) middle late :=
        agrees_of_apart headerWrite (by unfold Apart; omega)
      exact mixed_stored_agrees crc offset _ blockSize _ kept _ _ (Nat.le_refl _) inside stored

theorem write_full_holds (crc : Crc) (codec : RunCodec κ ν) (offset : Nat) (kind : BtreeKind)
    (node written : LoadedNode κ ν) (d after : Device)
    (ok : writeFullWith crc codec offset node d = (.ok written, after))
    (magic : node.header.magic = btreeMagic) (kinds : node.header.kind = kind.toU16)
    (large : 12 ≤ node.header.regionSizeLog2.toNat) (small : node.header.regionSizeLog2.toNat < 32)
    (few : node.sortedRuns.length < 256) :
    ChangesWithin offset node.header.regionSize d after ∧
      written.header.regionSizeLog2 = node.header.regionSizeLog2 ∧
      RegionHolds crc after offset kind written.header
        (node.sortedRuns.map fun run => (codec, run)) := by
  have bounds := region_size_bounds node.header large small
  obtain ⟨stop, header, changes, sector, stored, inside⟩ :=
    write_full_ok crc codec offset node written d after ok large small
  have start := mixed_stored_le crc offset after _ _ _ stored
  have used : written.header.payloadUsed.toNat = stop - blockSize := by
    rw [header, writtenHeader, UInt32.toNat_ofNat']
    exact Nat.mod_eq_of_lt (by omega)
  have size : written.header.regionSizeLog2 = node.header.regionSizeLog2 := by
    rw [header]
    rfl
  have ends : blockSize + written.header.payloadUsed.toNat = stop := by omega
  refine ⟨changes, size, ?_, ?_, ?_, ?_, sector, ?_, ?_, ?_⟩
  · rw [header]
    exact magic
  · rw [header]
    exact kinds
  · rw [size]
    exact large
  · rw [size]
    exact small
  · rw [ends]
    exact stored
  · rw [ends, BtreeNodeHeader.regionSize, size]
    exact inside
  · rw [header, writtenHeader, UInt8.toNat_ofNat', List.length_map]
    exact Nat.mod_eq_of_lt few

/-- A region as it is read back. -/
def storedNode (codec : RunCodec κ ν) (node : LoadedNode κ ν) (header : BtreeNodeHeader) :
    LoadedNode κ ν :=
  { header := header
    sortedRuns := node.sortedRuns.map (flaggedRun codec)
    mergedView := none
    pendingJournal := []
    dirty := false
    pin := JournalPin.default }

/-- Writing a region touches only the region, and the region reads back. -/
theorem region_read_back (crc : Crc) (codec : RunCodec κ ν) (offset : Nat) (kind : BtreeKind)
    (node written : LoadedNode κ ν) (d after : Device)
    (ok : writeFullWith crc codec offset node d = (.ok written, after))
    (magic : node.header.magic = btreeMagic) (kinds : node.header.kind = kind.toU16)
    (large : 12 ≤ node.header.regionSizeLog2.toNat) (small : node.header.regionSizeLog2.toNat < 32)
    (few : node.sortedRuns.length < 256)
    (restores : ∀ run ∈ node.sortedRuns, codec.Restores crc run) :
    ChangesWithin offset node.header.regionSize d after ∧
      ∀ e, AgreesOn offset node.header.regionSize after e →
        readWith crc codec e offset kind = .ok (storedNode codec node written.header) := by
  obtain ⟨changes, size, holds⟩ :=
    write_full_holds crc codec offset kind node written d after ok magic kinds large small few
  refine ⟨changes, ?_⟩
  intro e agrees
  have same : written.header.regionSize = node.header.regionSize := by
    rw [BtreeNodeHeader.regionSize, BtreeNodeHeader.regionSize, size]
  rw [← same] at agrees
  rw [region_holds_read (region_holds_agrees holds agrees) codec (by
    intro stored member
    obtain ⟨run, present, rfl⟩ := List.mem_map.mp member
    exact restores run present)]
  simp only [storedNode, List.map_map]
  rfl

theorem not_blank_of_first (d : Device) (offset length : Nat) (bytes : List UInt8) (first : UInt8)
    (found : d.readAt offset length = .ok bytes) (enough : 8 ≤ length)
    (start : bytes[0]? = some first) (nonzero : first ≠ 0) : isBlank d offset = .ok false := by
  have room : offset + length ≤ d.capacity := by
    unfold Device.readAt at found
    split at found
    · cases found
    · next inside => exact Nat.le_of_not_lt inside
  rw [Device.read_at_ok d offset length room] at found
  have here : d.bytes offset = first := by
    have zeroth := get_read d.bytes offset length 0 (by omega)
    rw [Except.ok.inj found, start] at zeroth
    exact (Option.some.inj zeroth).symm
  have probe : d.readAt offset 8 = .ok (read d.bytes offset 8) :=
    Device.read_at_ok d offset 8 (by omega)
  have values : read d.bytes offset 8 = d.bytes offset :: read d.bytes (offset + 1) 7 :=
    read_add d.bytes offset 1 7
  rw [isBlank, probe]
  simp only [bind, Except.bind]
  rw [values, List.all_cons, here, decide_eq_false nonzero]
  rfl

theorem not_blank (crc : Crc) (codec : RunCodec κ ν) (d : Device) (offset : Nat) (kind : BtreeKind)
    (node : LoadedNode κ ν) (found : readWith crc codec d offset kind = .ok node) :
    isBlank d offset = .ok false := by
  cases sector : d.readAt offset blockSize with
  | error err =>
      rw [readWith, sector] at found
      cases found
  | ok bytes =>
      cases parsed : BtreeNodeHeader.parse bytes with
      | error err =>
          rw [readWith, sector] at found
          simp only [bind, Except.bind, parsed] at found
          cases found
      | ok header =>
          have magic : (BtreeNodeHeader.layout.ofBytes
              (bytes.take BtreeNodeHeader.layout.size)).magic = btreeMagic := by
            unfold BtreeNodeHeader.parse at parsed
            split at parsed
            · cases parsed
            · dsimp only at parsed
              split at parsed
              · cases parsed
              · next same => exact not_ne_iff.mp same
          have first : (((bytes.take 64).take 4 ++ List.replicate 4 0).take 4)[0]? = some 0x4d :=
            congrArg (fun magic : List.Vector UInt8 4 => magic.toList[0]?) magic
          apply not_blank_of_first d offset blockSize bytes 0x4d sector (by decide) _ (by decide)
          cases bytes with
          | nil => exact absurd first (by decide)
          | cons byte rest => exact first

def regionSize : Nat := 256 * 1024

theorem region_size_table (kind : BtreeKind) (entries : List (κ × ν)) :
    (tableNode kind entries).header.regionSize = regionSize := by
  unfold tableNode
  split <;> rfl

/-- The node of a table has the header of its kind and one run at most. -/
theorem table_node_facts (kind : BtreeKind) (entries : List (κ × ν)) :
    (tableNode kind entries).header.magic = btreeMagic ∧
      (tableNode kind entries).header.kind = kind.toU16 ∧
      (tableNode kind entries).header.regionSizeLog2.toNat = 18 ∧
      (tableNode kind entries).sortedRuns.length < 256 := by
  unfold tableNode
  split
  · exact ⟨rfl, rfl, rfl, Nat.succ_pos _⟩
  · exact ⟨rfl, rfl, rfl, Nat.lt_of_lt_of_le (Nat.lt_succ_self 1) (by decide)⟩

theorem table_payload (crc : Crc) (codec : RunCodec κ ν) (kind : BtreeKind)
    (entries : List (κ × ν)) (offset : Nat) (d after : Device)
    (ok : flushTable crc codec kind entries offset d = (.ok (), after)) (some_entry : entries ≠ []) :
    ∃ payload, codec.encode entries = .ok payload ∧ payload.length ≤ regionSize := by
  obtain ⟨written, middle, stored, -⟩ := DeviceM.bind_ok _ _ _ _ _ ok
  obtain ⟨stop, late, runs, -⟩ := DeviceM.bind_ok _ _ _ _ _ stored
  have single : (tableNode kind entries).sortedRuns = [SortedRun.fromSorted 0 0 entries] := by
    rw [tableNode, List.isEmpty_eq_false_iff.mpr some_entry]
    rfl
  rw [single] at runs
  obtain ⟨⟨header, payload⟩, same, lifted, runs⟩ := DeviceM.bind_ok _ _ _ _ _ runs
  obtain ⟨encoded, -⟩ := DeviceM.lift_ok _ _ _ _ lifted
  refine ⟨payload, (encode_run_ok crc codec _ header payload encoded).1, ?_⟩
  dsimp only at runs
  split at runs
  · cases runs
  · next fits =>
      rw [region_size_table] at fits
      omega

theorem map_error_inv {ε ε' α : Type} {change : ε → ε'} {result : Except ε α} {value : α}
    (ok : result.mapError change = .ok value) : result = .ok value := by
  cases result with
  | error err => cases ok
  | ok found =>
      cases ok
      rfl

section

variable [LinearOrder κ]

theorem newest_distinct (rows : List (MergeRow κ ν)) (distinct : (rows.map MergeRow.key).Nodup) :
    LoadedNode.newestRows rows =
      rows.flatMap fun row => row.value.toList.map fun value => (row.key, value) := by
  induction rows with
  | nil => rfl
  | cons row rows ih =>
      rw [List.map_cons, List.nodup_cons] at distinct
      cases rows with
      | nil => simp [LoadedNode.newestRows]
      | cons next rest =>
          have other : next.key ≠ row.key := by
            intro same
            apply distinct.1
            rw [List.map_cons, same]
            exact List.mem_cons_self
          rw [LoadedNode.newestRows, if_neg other, ih distinct.2, List.flatMap_cons (x := row)]

theorem merge_iter_single (node : LoadedNode κ ν) (run : SortedRun κ ν)
    (single : node.sortedRuns = [run]) (settled : node.pendingJournal = [])
    (increasing : (run.entries.map Prod.fst).Pairwise (· < ·)) :
    node.mergeIter = run.entries := by
  have rows : node.mergeRows =
      run.entries.map fun entry => (⟨entry.1, 0, some entry.2, 0⟩ : MergeRow κ ν) := by
    simp [LoadedNode.mergeRows, single, settled]
  have sorted : (node.mergeRows.mergeSort fun left right => decide (left.rank ≤ right.rank)) =
      node.mergeRows := by
    apply List.mergeSort_of_pairwise
    rw [rows, List.pairwise_map]
    rw [List.pairwise_map] at increasing
    apply increasing.imp
    intro left right less
    apply decide_eq_true
    exact Prod.Lex.le_iff.mpr (Or.inl less)
  have distinct : (node.mergeRows.map MergeRow.key).Nodup := by
    rw [rows, List.map_map]
    exact increasing.imp fun less => ne_of_lt less
  rw [LoadedNode.mergeIter, sorted, newest_distinct _ distinct, rows, List.flatMap_map]
  simp

/-- Writing a table touches only its region, and the table is read back. -/
theorem table_read_back (crc : Crc) (codec : RunCodec κ ν) (kind : BtreeKind)
    (entries : List (κ × ν)) (offset : Nat) (d after : Device)
    (ok : flushTable crc codec kind entries offset d = (.ok (), after))
    (increasing : (entries.map Prod.fst).Pairwise (· < ·))
    (restores : codec.Restores crc (SortedRun.fromSorted 0 0 entries)) :
    ChangesWithin offset regionSize d after ∧
      ∀ e, AgreesOn offset regionSize after e →
        loadTable crc codec kind e offset = .ok entries := by
  obtain ⟨written, middle, stored, done⟩ := DeviceM.bind_ok _ _ _ _ _ ok
  obtain ⟨-, same⟩ := DeviceM.pure_ok _ _ _ _ done
  subst same
  have size := region_size_table kind entries
  have runs : ∀ run ∈ (tableNode kind entries).sortedRuns,
      run = SortedRun.fromSorted 0 0 entries := by
    intro run member
    unfold tableNode at member
    split at member
    · cases member
    · exact List.mem_singleton.mp member
  obtain ⟨magic, kinds, log, few⟩ := table_node_facts kind entries
  have region := region_read_back crc codec offset kind _ _ _ _ stored magic kinds
    (by rw [log]; omega) (by rw [log]; omega) few (by
      intro run member
      rw [runs run member]
      exact restores)
  rw [size] at region
  refine ⟨region.1, ?_⟩
  intro e agrees
  have found := region.2 e agrees
  rw [loadTable, not_blank crc codec e offset kind _ found]
  simp only [bind, Except.bind, Bool.false_eq_true, if_false]
  rw [found]
  apply congrArg Except.ok
  by_cases none : entries = []
  · subst none
    simp [storedNode, tableNode, LoadedNode.new, LoadedNode.mergeIter, LoadedNode.mergeRows,
      LoadedNode.newestRows]
  · apply merge_iter_single _ (flaggedRun codec (SortedRun.fromSorted 0 0 entries))
    · have nonempty : entries.isEmpty = false := List.isEmpty_eq_false_iff.mpr none
      rw [storedNode, tableNode, nonempty]
      rfl
    · rfl
    · exact increasing

/-- A table under the CBOR codec is read back. -/
theorem cbor_table_read_back (crc : Crc) (cbor : Cbor (List (κ × ν))) (kind : BtreeKind)
    (entries : List (κ × ν)) (offset : Nat) (d after : Device)
    (ok : flushTable crc (.cbor cbor) kind entries offset d = (.ok (), after))
    (increasing : (entries.map Prod.fst).Pairwise (· < ·)) :
    ChangesWithin offset regionSize d after ∧
      ∀ e, AgreesOn offset regionSize after e →
        loadTable crc (.cbor cbor) kind e offset = .ok entries := by
  apply table_read_back crc _ kind entries offset d after ok increasing
  apply cbor_restores
  show (0 : UInt32) &&& sortedRunFlagPackedKeys = 0
  decide

/-- A table of packed keys is read back; the region bounds the number of entries. -/
theorem packed_table_read_back (crc : Crc) (shape : PackableKey κ) (lawful : shape.Lawful)
    (values : ValueBytes ν) (valueSize : Nat) (forceVarint : Bool) (cbor : Cbor (List (κ × ν)))
    (kind : BtreeKind) (entries : List (κ × ν)) (offset : Nat) (d after : Device)
    (ok : flushTable crc (.packed shape values valueSize forceVarint cbor) kind entries offset d =
      (.ok (), after))
    (increasing : (entries.map Prod.fst).Pairwise (· < ·))
    (back : ∀ entry ∈ entries, values.fromBytes (values.toBytes entry.2) = entry.2)
    (short : ∀ entry ∈ entries, (values.toBytes entry.2).length < 2 ^ 64)
    (sized : forceVarint = false → ∀ entry ∈ entries,
      (values.toBytes entry.2).length = valueSize) :
    ChangesWithin offset regionSize d after ∧
      ∀ e, AgreesOn offset regionSize after e →
        loadTable crc (.packed shape values valueSize forceVarint cbor) kind e offset =
          .ok entries := by
  apply table_read_back crc _ kind entries offset d after ok increasing
  apply packed_restores crc shape lawful
  refine ⟨?_, back, short, sized⟩
  show entries.length < 2 ^ 32
  have bounded := table_payload crc _ kind entries offset d after ok
  by_cases none : entries = []
  · rw [none]
    exact Nat.two_pow_pos 32
  · obtain ⟨payload, encoded, fits⟩ := bounded none
    simp only [RunCodec.packed, bind, Except.bind] at encoded
    split at encoded
    · cases encoded
    · next found selected =>
        obtain ⟨head, fields, valuePrefix⟩ := found
        have distinct : ((entries.map fun entry => (entry.1, values.toBytes entry.2)).map
            Prod.fst).Nodup := by
          rw [List.map_map]
          exact increasing.imp fun less => ne_of_lt less
        have count := packed_run_count shape lawful _ distinct forceVarint head fields valuePrefix
          payload (map_error_inv selected) (map_error_inv encoded)
        rw [List.length_map] at count
        rw [regionSize] at fits
        omega

end

end Mimisbrunnr.Storage
