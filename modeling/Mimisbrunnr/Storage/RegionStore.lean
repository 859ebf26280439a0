import Mimisbrunnr.Storage.BtreeRoundTrip

/-!
# Regions that grow

A region is written whole and then grows by single runs, some under CBOR and some
under packed keys. The writers keep the place of the next run in the header, the
reader finds it from the length of the run before; both agree. What the reader
cannot tell is a CBOR run that carries the flag of packed keys.
-/

namespace Mimisbrunnr.Storage

set_option autoImplicit false

open Mimisbrunnr.Lib.ByteStore
open Mimisbrunnr.Lib.Layout

section

variable {κ ν : Type}

/-- The keys, values and codecs of a region. -/
structure RegionFormat (κ ν : Type) where
  shape : PackableKey κ
  values : ValueBytes ν
  valueSize : Nat
  cbor : Cbor (List (κ × ν))

/-- `write_full` and `append_sorted_run`, or their packed variants. -/
inductive Writer where
  | cbor
  | packed
deriving DecidableEq, Repr

namespace RegionFormat

def codec (format : RegionFormat κ ν) : Writer → RunCodec κ ν
  | .cbor => .cbor format.cbor
  | .packed => .packed format.shape format.values format.valueSize false format.cbor

/-- The reader of `read_packed`. -/
def reader (format : RegionFormat κ ν) : RunCodec κ ν := format.codec .packed

def appendAll (crc : Crc) (format : RegionFormat κ ν) (offset : Nat) :
    List (Writer × SortedRun κ ν) → BtreeNodeHeader → DeviceM StorageError BtreeNodeHeader
  | [], header => pure header
  | (writer, run) :: rest, header => do
      let header ← appendSortedRunWith crc (format.codec writer) offset header run
      appendAll crc format offset rest header

/-- Writes a node and appends runs, and returns the header of the region. -/
def store (crc : Crc) (format : RegionFormat κ ν) (offset : Nat) (writer : Writer)
    (node : LoadedNode κ ν) (appends : List (Writer × SortedRun κ ν)) :
    DeviceM StorageError BtreeNodeHeader := do
  let written ← writeFullWith crc (format.codec writer) offset node
  appendAll crc format offset appends written.header

def storedRuns (writer : Writer) (node : LoadedNode κ ν)
    (appends : List (Writer × SortedRun κ ν)) : List (Writer × SortedRun κ ν) :=
  (node.sortedRuns.map fun run => (writer, run)) ++ appends

/-- The value size is that of each packed run whose values have one size. -/
def Sized (format : RegionFormat κ ν) : Writer × SortedRun κ ν → Prop
  | (.cbor, _) => True
  | (.packed, run) =>
      selectKind (run.entries.map fun entry => format.values.toBytes entry.2) false = .fixed →
        ∀ entry ∈ run.entries, (format.values.toBytes entry.2).length = format.valueSize

end RegionFormat

def ValueBytes.Lawful (values : ValueBytes ν) : Prop :=
  ∀ value, values.fromBytes (values.toBytes value) = value

def RegionFormat.Addressable (format : RegionFormat κ ν) (stored : Writer × SortedRun κ ν) :
    Prop :=
  ∀ entry ∈ stored.2.entries, (format.values.toBytes entry.2).length < 2 ^ 64

/-- A run whose header says what its payload is: under CBOR the flag of packed keys is not set,
under packed keys the number of entries fits its field. -/
def Labelled : Writer × SortedRun κ ν → Prop
  | (.cbor, run) => run.flags &&& sortedRunFlagPackedKeys = 0
  | (.packed, run) => run.entries.length < 2 ^ 32

/-- An append adds a run to what the region holds and touches only the region. -/
theorem append_holds (crc : Crc) (codec : RunCodec κ ν) (offset : Nat) (kind : BtreeKind)
    (header appended : BtreeNodeHeader) (runs : List (RunCodec κ ν × SortedRun κ ν))
    (run : SortedRun κ ν) (d after : Device)
    (holds : RegionHolds crc d offset kind header runs) (few : runs.length + 1 < 256)
    (ok : appendSortedRunWith crc codec offset header run d = (.ok appended, after)) :
    ChangesWithin offset header.regionSize d after ∧
      appended.regionSizeLog2 = header.regionSizeLog2 ∧
      RegionHolds crc after offset kind appended (runs ++ [(codec, run)]) := by
  have bounds := region_size_bounds header holds.large holds.small
  have inside := holds.inside
  obtain ⟨⟨runHeader, payload⟩, same, lifted, ok⟩ := DeviceM.bind_ok _ _ _ _ _ ok
  obtain ⟨encoded, unchanged⟩ := DeviceM.lift_ok _ _ _ _ lifted
  subst unchanged
  dsimp only at ok
  split at ok
  · cases ok
  next fits =>
  obtain ⟨⟨⟩, middle, first, ok⟩ := DeviceM.bind_ok _ _ _ _ _ ok
  obtain ⟨⟨⟩, late, second, ok⟩ := DeviceM.bind_ok _ _ _ _ _ ok
  split at ok
  · cases ok
  obtain ⟨⟨⟩, last, sector, ok⟩ := DeviceM.bind_ok _ _ _ _ _ ok
  obtain ⟨same, unchanged⟩ := DeviceM.pure_ok _ _ _ _ ok
  subst same
  subst unchanged
  obtain ⟨changes, written⟩ := write_run_ok crc offset codec run _ header.regionSize runHeader
    payload _ _ _ encoded (Nat.le_of_not_lt fits) bounds.2.2 first second
  let stop := alignUpToSector (blockSize + header.payloadUsed.toNat +
    (SortedRunHeader.layout.size + payload.length))
  have up : blockSize + header.payloadUsed.toNat + (SortedRunHeader.layout.size + payload.length) ≤
      stop := le_align_up _
  have below : stop ≤ header.regionSize :=
    align_up_le _ header.regionSize bounds.1 (Nat.le_of_not_lt fits)
  have length := length_header_sector (appendedHeader header run (stop - blockSize))
  have headerWrite := changes_within_write _ _ _ _ sector
  have headerRead := read_of_write _ _ _ _ sector
  rw [length] at headerWrite headerRead
  have used : (appendedHeader header run (stop - blockSize)).payloadUsed.toNat =
      stop - blockSize := by
    rw [appendedHeader, UInt32.toNat_ofNat']
    exact Nat.mod_eq_of_lt (by omega)
  have ends : blockSize + (appendedHeader header run (stop - blockSize)).payloadUsed.toNat =
      stop := by
    rw [used]
    omega
  -- The header sector lies before all runs and the new run behind the others.
  have sectorApart : AgreesOn (offset + blockSize) (stop - blockSize) late last :=
    agrees_of_apart headerWrite (by unfold Apart; omega)
  have runApart : AgreesOn (offset + blockSize)
      (blockSize + header.payloadUsed.toNat - blockSize) d late :=
    agrees_of_apart changes (by unfold Apart; omega)
  have earlier := mixed_stored_agrees crc offset runs blockSize _ runApart _ _ (Nat.le_refl _)
    (Nat.le_refl _) holds.stored
  have all := mixed_stored_append crc offset late runs [(codec, run)] _ _ _ earlier written
  have kept := mixed_stored_agrees crc offset _ blockSize stop sectorApart _ _ (Nat.le_refl _)
    (Nat.le_refl _) all
  refine ⟨?_, rfl, holds.magic, holds.kinds, holds.large, holds.small, ?_, ?_, ?_, ?_⟩
  · exact changes_within_trans (changes_within_mono changes (by omega) (by omega))
      (changes_within_mono headerWrite (by omega) (by omega))
  · rw [Device.read_at_ok _ _ _ headerRead.2]
    exact congrArg Except.ok headerRead.1
  · change MixedStored crc last offset _ blockSize
      (blockSize + (appendedHeader header run (stop - blockSize)).payloadUsed.toNat)
    rw [ends]
    exact kept
  · change blockSize + (appendedHeader header run (stop - blockSize)).payloadUsed.toNat ≤ _
    rw [ends]
    exact below
  · change (header.sortedRunCount + 1).toNat = _
    rw [UInt8.toNat_add, holds.count, List.length_append]
    exact Nat.mod_eq_of_lt few

/-- A region of at most 512 KiB has room for no more runs than the count can number. -/
theorem few_runs {crc : Crc} {d : Device} {offset : Nat} {kind : BtreeKind}
    {header : BtreeNodeHeader} {runs : List (RunCodec κ ν × SortedRun κ ν)}
    (holds : RegionHolds crc d offset kind header runs)
    (small : header.regionSizeLog2.toNat ≤ 19) : runs.length + 1 < 256 := by
  have count := region_holds_count holds
  have size : header.regionSize ≤ 2 ^ 19 := Nat.pow_le_pow_right (by omega) small
  simp only [blockSize] at count
  omega

namespace RegionFormat

def coded (format : RegionFormat κ ν) (runs : List (Writer × SortedRun κ ν)) :
    List (RunCodec κ ν × SortedRun κ ν) :=
  runs.map fun stored => (format.codec stored.1, stored.2)

private theorem append_all_holds (crc : Crc) (format : RegionFormat κ ν) (offset : Nat)
    (kind : BtreeKind)
    (appends : List (Writer × SortedRun κ ν)) :
    ∀ (runs : List (Writer × SortedRun κ ν)) (header final : BtreeNodeHeader) (d after : Device),
      RegionHolds crc d offset kind header (format.coded runs) →
      header.regionSizeLog2.toNat ≤ 19 →
      appendAll crc format offset appends header d = (.ok final, after) →
      ChangesWithin offset header.regionSize d after ∧
        RegionHolds crc after offset kind final (format.coded (runs ++ appends)) := by
  induction appends with
  | nil =>
      intro runs header final d after holds small ok
      obtain ⟨same, unchanged⟩ := DeviceM.pure_ok _ _ _ _ ok
      subst same
      subst unchanged
      rw [List.append_nil]
      exact ⟨changes_within_refl _ _ _, holds⟩
  | cons next rest ih =>
      intro runs header final d after holds small ok
      obtain ⟨appended, middle, first, ok⟩ := DeviceM.bind_ok _ _ _ _ _ ok
      obtain ⟨changes, size, holds⟩ := append_holds crc (format.codec next.1) offset kind header
        appended (format.coded runs) next.2 d middle holds (few_runs holds small) first
      have regionSize : appended.regionSize = header.regionSize := by
        rw [BtreeNodeHeader.regionSize, BtreeNodeHeader.regionSize, size]
      have longer : format.coded runs ++ [(format.codec next.1, next.2)] =
          format.coded (runs ++ [next]) := by
        rw [coded, coded, List.map_append]
        rfl
      rw [longer] at holds
      obtain ⟨later, holds⟩ := ih (runs ++ [next]) appended final middle after holds
        (by rw [size]; exact small) ok
      rw [regionSize] at later
      rw [List.append_assoc] at holds
      exact ⟨changes_within_trans changes later, holds⟩

theorem store_holds (crc : Crc) (format : RegionFormat κ ν) (offset : Nat) (kind : BtreeKind)
    (writer : Writer) (node : LoadedNode κ ν) (appends : List (Writer × SortedRun κ ν))
    (header : BtreeNodeHeader) (d after : Device)
    (magic : node.header.magic = btreeMagic) (kinds : node.header.kind = kind.toU16)
    (large : 12 ≤ node.header.regionSizeLog2.toNat) (small : node.header.regionSizeLog2.toNat ≤ 19)
    (ok : store crc format offset writer node appends d = (.ok header, after)) :
    ChangesWithin offset node.header.regionSize d after ∧
      RegionHolds crc after offset kind header
        (format.coded (storedRuns writer node appends)) := by
  obtain ⟨written, middle, first, ok⟩ := DeviceM.bind_ok _ _ _ _ _ ok
  have few : node.sortedRuns.length < 256 := by
    obtain ⟨stop, -, -, -, stored, inside⟩ :=
      write_full_ok crc (format.codec writer) offset node written d middle first large (by omega)
    have sectors := mixed_stored_sectors crc offset middle _ _ _ (Nat.dvd_refl _) stored
    have size : node.header.regionSize ≤ 2 ^ 19 := Nat.pow_le_pow_right (by omega) small
    rw [List.length_map] at sectors
    have room := sectors.1
    simp only [blockSize] at room
    omega
  obtain ⟨changes, size, holds⟩ := write_full_holds crc (format.codec writer) offset kind node
    written d middle first magic kinds large (by omega) few
  have regionSize : written.header.regionSize = node.header.regionSize := by
    rw [BtreeNodeHeader.regionSize, BtreeNodeHeader.regionSize, size]
  have runs : (node.sortedRuns.map fun run => (format.codec writer, run)) =
      format.coded (node.sortedRuns.map fun run => (writer, run)) := by
    rw [coded, List.map_map]
    rfl
  rw [runs] at holds
  obtain ⟨later, holds⟩ := append_all_holds crc format offset kind appends _ written.header header
    middle after holds (by rw [size]; exact small) ok
  rw [regionSize] at later
  exact ⟨changes_within_trans changes later, holds⟩

def content (run : SortedRun κ ν) : UInt32 × UInt64 × List (κ × ν) :=
  (run.seq, run.journalSeq, run.entries)

private theorem reader_reads (crc : Crc) (format : RegionFormat κ ν) (keys : format.shape.Lawful)
    (values : format.values.Lawful) (stored : Writer × SortedRun κ ν)
    (addressable : format.Addressable stored) (sized : format.Sized stored)
    (labelled : Labelled stored) :
    format.reader.Reads crc (format.codec stored.1) stored.2 := by
  obtain ⟨writer, run⟩ := stored
  cases writer with
  | cbor => exact packed_reads_cbor crc _ _ _ _ format.cbor run labelled
  | packed =>
      exact packed_reads crc format.shape keys format.values format.valueSize false false
        format.cbor run labelled (fun entry _ => values entry.2) addressable sized

/-- A region whose runs are labelled right is read back after any appends; the count of runs and
the alignment of the payload are right, and nothing outside the region was written. -/
theorem grown_region_read_back (crc : Crc) (format : RegionFormat κ ν)
    (keys : format.shape.Lawful) (values : format.values.Lawful) (offset : Nat) (kind : BtreeKind)
    (writer : Writer) (node : LoadedNode κ ν) (appends : List (Writer × SortedRun κ ν))
    (header : BtreeNodeHeader) (d after : Device)
    (magic : node.header.magic = btreeMagic) (kinds : node.header.kind = kind.toU16)
    (large : 12 ≤ node.header.regionSizeLog2.toNat) (small : node.header.regionSizeLog2.toNat ≤ 19)
    (addressable : ∀ stored ∈ storedRuns writer node appends, format.Addressable stored)
    (sized : ∀ stored ∈ storedRuns writer node appends, format.Sized stored)
    (labelled : ∀ stored ∈ storedRuns writer node appends, Labelled stored)
    (ok : store crc format offset writer node appends d = (.ok header, after)) :
    ChangesWithin offset node.header.regionSize d after ∧
      header.sortedRunCount.toNat = (storedRuns writer node appends).length ∧
      blockSize ∣ header.payloadUsed.toNat ∧
      ∃ found, readWith crc format.reader after offset kind = .ok found ∧
        found.header = header ∧
        found.sortedRuns.map content =
          (storedRuns writer node appends).map fun stored => content stored.2 := by
  obtain ⟨changes, holds⟩ := store_holds crc format offset kind writer node appends header d after
    magic kinds large small ok
  have read := region_holds_read holds format.reader (by
    intro stored member
    obtain ⟨run, present, rfl⟩ := List.mem_map.mp member
    exact reader_reads crc format keys values run (addressable run present) (sized run present)
      (labelled run present))
  refine ⟨changes, ?_, region_holds_aligned holds, _, read, rfl, ?_⟩
  · rw [holds.count, coded, List.length_map]
  · simp only [coded, List.map_map]
    rfl

end RegionFormat

/-- A region is not read when the payload of its first run is refused. -/
theorem refused_run_not_read (crc : Crc) (d : Device) (offset : Nat) (kind : BtreeKind)
    (header : BtreeNodeHeader) (codec reader : RunCodec κ ν) (run : SortedRun κ ν)
    (rest : List (RunCodec κ ν × SortedRun κ ν)) (err : StorageError)
    (holds : RegionHolds crc d offset kind header ((codec, run) :: rest))
    (refused : ∀ runHeader payload, encodeRun crc codec run = .ok (runHeader, payload) →
      reader.refuse runHeader.flags = none ∧ reader.decode runHeader payload = .error err) :
    readWith crc reader d offset kind = .error err := by
  have sectors := mixed_stored_sectors crc offset d _ _ _ (Nat.dvd_refl _) holds.stored
  obtain ⟨runHeader, payload, encoded, short, room, first, second, later⟩ := holds.stored
  have fails := refused runHeader payload encoded
  have more : blockSize < blockSize + header.payloadUsed.toNat := by
    have start := sectors.1
    rw [List.length_cons] at start
    simp only [blockSize] at start ⊢
    omega
  rw [region_holds_runs holds reader, List.length_cons,
    read_run_step crc offset reader codec run d _ _ _ runHeader payload more encoded short room
      first second fails.1, fails.2]
  rfl

end

/-- The bytes of a list of the one pair of 7 and `[1]`. -/
def sampleBytes : List UInt8 := [0x81, 0x82, 0x07, 0x81, 0x01]

def sampleCbor : Cbor (List (UInt64 × List UInt8)) where
  encode entries := if entries = [(7, [1])] then .ok sampleBytes else .error "unsupported"
  decode bytes := if bytes = sampleBytes then .ok [(7, [1])] else .error "unsupported"
  decode_encode := by
    intro entries bytes ok
    split at ok
    · next same =>
        cases ok
        rw [if_pos rfl, same]
    · cases ok

def byteValues : ValueBytes (List UInt8) where
  toBytes value := value
  fromBytes bytes := bytes

def sampleFormat : RegionFormat UInt64 (List UInt8) :=
  { shape := PackableKey.u64, values := byteValues, valueSize := 1, cbor := sampleCbor }

def sampleRun (flags : UInt32) : SortedRun UInt64 (List UInt8) :=
  { seq := 3, journalSeq := 9, flags := flags, entries := [(7, [1])] }

def sampleNode (flags : UInt32) : LoadedNode UInt64 (List UInt8) :=
  { LoadedNode.new .objectTable 0 14 with sortedRuns := [sampleRun flags] }

def sampleDevice : Device :=
  { bytes := fun _ => 0, capacity := 16384, readOnly := false, faults := [] }

theorem sample_runs (holds : Writer × SortedRun UInt64 (List UInt8) → Prop)
    (written : holds (.cbor, sampleRun 0)) (appended : holds (.packed, sampleRun 0)) :
    ∀ stored ∈ RegionFormat.storedRuns .cbor (sampleNode 0) [(.packed, sampleRun 0)],
      holds stored := by
  intro stored member
  simp only [RegionFormat.storedRuns, sampleNode, List.map_cons, List.map_nil, List.cons_append,
    List.nil_append, List.mem_cons, List.not_mem_nil, or_false] at member
  cases member with
  | inl first =>
      rw [first]
      exact written
  | inr second =>
      rw [second]
      exact appended

private theorem sample_addressable (writer : Writer) :
    sampleFormat.Addressable (writer, sampleRun 0) := by
  intro entry member
  rw [List.mem_singleton.mp member]
  exact Nat.one_lt_two_pow (by decide)

theorem sample_region_read_back :
    ∃ header after,
      sampleFormat.store crc32c 0 .cbor (sampleNode 0) [(.packed, sampleRun 0)] sampleDevice =
        (.ok header, after) ∧
      ∃ found, readWith crc32c sampleFormat.reader after 0 .objectTable = .ok found ∧
        found.sortedRuns.map RegionFormat.content =
          [(3, 9, [(7, [1])]), (3, 9, [(7, [1])])] := by
  have stored : (sampleFormat.store crc32c 0 .cbor (sampleNode 0) [(.packed, sampleRun 0)]
      sampleDevice).1 =
      .ok (appendedHeader (writtenHeader (sampleNode 0) 4096) (sampleRun 0) 8192) := by
    decide +kernel
  have ok := DeviceM.ok_of_fst _ _ _ stored
  have sized : sampleFormat.Sized (.packed, sampleRun 0) := by
    intro _ entry member
    rw [List.mem_singleton.mp member]
    rfl
  have plain : Labelled (.cbor, sampleRun 0) :=
    (by decide : (0 : UInt32) &&& sortedRunFlagPackedKeys = 0)
  have few : Labelled (.packed, sampleRun 0) := (by decide : 1 < 2 ^ 32)
  obtain ⟨-, -, -, found, read, -, runs⟩ := RegionFormat.grown_region_read_back crc32c sampleFormat
    PackableKey.u64_lawful (fun _ => rfl) 0 .objectTable .cbor (sampleNode 0)
    [(.packed, sampleRun 0)] _ sampleDevice _ rfl rfl (by decide) (by decide)
    (sample_runs _ (sample_addressable .cbor) (sample_addressable .packed))
    (sample_runs _ trivial sized) (sample_runs _ plain few) ok
  exact ⟨_, _, ok, found, read, runs⟩

/-- A run that was read from packed keys keeps their flag. `write_full` stores it as CBOR under
this flag, and the reader takes the payload for a packed one and refuses it. -/
theorem flagged_run_not_read :
    ∃ header after,
      sampleFormat.store crc32c 0 .cbor (sampleNode sortedRunFlagPackedKeys) [] sampleDevice =
        (.ok header, after) ∧
      readWith crc32c sampleFormat.reader after 0 .objectTable =
        .error (.pack (.malformed "decode: format header truncated")) := by
  have stored : (sampleFormat.store crc32c 0 .cbor (sampleNode sortedRunFlagPackedKeys) []
      sampleDevice).1 = .ok (writtenHeader (sampleNode sortedRunFlagPackedKeys) 4096) := by
    decide +kernel
  have ok := DeviceM.ok_of_fst _ _ _ stored
  obtain ⟨-, holds⟩ := RegionFormat.store_holds crc32c sampleFormat 0 .objectTable .cbor _ [] _
    sampleDevice _ rfl rfl (by decide) (by decide) ok
  refine ⟨_, _, ok, refused_run_not_read crc32c _ 0 .objectTable _ _ _ _ [] _ holds ?_⟩
  intro header payload encoded
  have facts := encode_run_ok crc32c _ _ header payload encoded
  have bytes : payload = sampleBytes := (Except.ok.inj facts.1).symm
  have flagged : header.flags &&& sortedRunFlagPackedKeys ≠ 0 := by
    rw [facts.2.2.2.2.2.2.1]
    decide
  refine ⟨rfl, ?_⟩
  rw [bytes]
  simp only [RegionFormat.reader, RegionFormat.codec, RunCodec.packed, if_pos flagged]
  rfl

end Mimisbrunnr.Storage
