import Xllm.Runtime.FieldCodec

/-!
# The worker reads what was sent

The sections of an input are a sequence of fields, so its round trip is put together from
those of the fields. Around them stand the header with the sizes of the sections and the
control data of the segment.

An input can be sent exactly when it has the form of what a worker reads at all: whatever
stands in a segment, the lengths that are read are below `2 ^ 31`, the multimodal data are
of one kind, and the lists of tensors are countable with an `int32_t`.
-/

namespace Xllm.SharedMemory

open Codec List

namespace RawForwardInput

variable {input : RawForwardInput} {samplingParams : SamplingParameters}

def positionsTensor (input : RawForwardInput) : Tensor :=
  if input.flattenPositionsVec.isEmpty then vector2dTensor input.mPositionsVec
  else vectorTensor input.flattenPositionsVec

/-- What a worker should have, field by field. -/
def forwardInput (input : RawForwardInput) (samplingParams : SamplingParameters) :
    ForwardInput where
  tokenIds := vectorTensor input.flattenTokensVec
  positions := input.positionsTensor
  inputParams := {
    batchForwardType := input.batchForwardType
    numSequences := input.numSequences
    kvMaxSeqLen := input.maxSeqLen.toInt32
    qMaxSeqLen := input.qMaxSeqLen.toInt32
    batchId := input.batchId
    qSeqLens := vectorTensor input.qSeqLens
    qSeqLensVec := input.qSeqLens
    qCuSeqLens := cuSeqLens input.qSeqLens
    kvSeqLens := vectorTensor input.seqLens
    kvSeqLensVec := input.seqLens
    pagedKvIndptr := vectorTensor input.pagedKvIndptr
    pagedKvIndices := vectorTensor input.pagedKvIndices
    pagedKvLastPageLen := vectorTensor input.pagedKvLastPageLen
    newCacheSlotOffsets := vectorTensor input.newCacheSlotOffsets
    kvCacheStartOffsets := vectorTensor input.kvCacheStartOffsets
    inputEmbedding := vector2dTensor input.embeddings
    dpGlobalTokenNums := input.dpGlobalTokenNums
    dpIsDecode := input.dpIsDecode
    embeddingIds := input.embeddingIds
    requestIds := input.requestIds
    extraTokenIds := input.extraTokenIds
    swapBlocks := input.swapBlocks
    srcBlockIndices := vectorTensor input.srcBlockIndices
    dstBlockIndices := vectorTensor input.dstBlockIndices
    cumSum := vectorTensor input.cumSum
    mmData := input.mmData
    kvCacheTokensNums := vectorTensor input.kvCacheTokensNums
    kvCacheTokensNumsHost := input.kvCacheTokensNums
    newCacheSlots := vectorTensor input.newTokenSlotIds
    blockTables := vector2dTensor input.blockTablesVec
    ditForwardInput := input.ditForwardInput }
  samplingParams := samplingParams
  accLogprob := vectorTensor input.accLogprobVec
  transferKvInfos := input.transferKvInfos
  eplbInfo := input.eplbInfo

/-- Vectors of rows are rectangular, tensors have dimensions, and no list of tensors has
length one. -/
structure Plain (input : RawForwardInput) : Prop where
  mPositionsVec : Rectangular input.mPositionsVec
  embeddings : Rectangular input.embeddings
  blockTablesVec : Rectangular input.blockTablesVec
  uniqueTokenIdsVec : Rectangular input.uniqueTokenIdsVec
  uniqueTokenCountsVec : Rectangular input.uniqueTokenCountsVec
  tensors : ∀ tensor ∈ input.ditForwardInput.tensors, HasDimensions tensor
  values : ∀ mmData ∈ input.mmData, ∀ value ∈ mmData.values, value.Plain

theorem framed_positions (plain : input.Plain) :
    Framed 16 (writePositions input) readTensor input.positionsTensor := by
  rw [writePositions, positionsTensor]
  split
  · exact framed_2dVectorToTensor plain.mPositionsVec
  · exact framed_vectorToTensor _

/-- All sections of an input are read back. -/
theorem roundTrip_sections (plain : input.Plain) (hkind : OneKind input.mmData)
    (hcount : ∀ mmData ∈ input.mmData, ∀ value ∈ mmData.values, value.Countable)
    (hsampling : input.sampling = some samplingParams) :
    RoundTrip 16 (serializeRawForwardInputSections input) readForwardInputSections
      (input.forwardInput samplingParams) :=
  (framed_vectorToTensor _).roundTrip.bind <| (framed_positions plain).roundTrip.bind <|
  (framed_data _).roundTrip.bind <| (framed_data _).roundTrip.bind <|
  (framed_unsigned _).roundTrip.bind <| (framed_unsigned _).roundTrip.bind <|
  (framed_data _).roundTrip.bind <| (framed_tensorAndVector _).roundTrip.bind <|
  (framed_tensorAndVector _).roundTrip.bind <| (framed_vectorToTensor _).roundTrip.bind <|
  (framed_vectorToTensor _).roundTrip.bind <| (framed_vectorToTensor _).roundTrip.bind <|
  (framed_vectorToTensor _).roundTrip.bind <| (framed_vectorToTensor _).roundTrip.bind <|
  (framed_2dVectorToTensor plain.embeddings).roundTrip.bind <|
  (framed_vector _).roundTrip.bind <| (framed_vector _).roundTrip.bind <|
  (framed_vector _).roundTrip.bind <| (framed_stringVector _).roundTrip.bind <|
  (framed_vector _).roundTrip.bind <| (framed_swapBlocks _).roundTrip.bind <|
  (framed_vectorToTensor _).roundTrip.bind <| (framed_vectorToTensor _).roundTrip.bind <|
  (framed_vectorToTensor _).roundTrip.bind <|
  (framed_mmBatchData hkind plain.values hcount).roundTrip.bind <|
  (framed_tensorAndVector _).roundTrip.bind <| (framed_sampling hsampling).roundTrip.bind <|
  (framed_vectorToTensor _).roundTrip.bind <|
  RoundTrip.list (fun info _ => framed_transferKvInfo info) <|
  (framed_eplbInfo _).roundTrip.bind <| (framed_vectorToTensor _).roundTrip.bind <|
  (framed_2dVectorToTensor plain.blockTablesVec).roundTrip.bind <|
  (framed_ditForwardInput plain.tensors).roundTrip.done fun _ => rfl

/-! What a worker can read at all. -/

theorem returns_mmEntry : Returns readMmEntry fun entry => entry.2.Countable := by
  refine .after fun mmKey => .after fun tensorNum => ?_
  split
  · exact .after fun tensor => .pure trivial
  · refine .after fun _ => ?_
    refine (returns_readMany (P := fun _ => True) (fun _ _ _ _ => trivial) _).bind ?_
    intro tensors htensors
    refine .pure ?_
    have hlt := tensorNum.toInt_lt
    change tensors.length < 2 ^ 31
    omega

section Values

variable {P : MMValue → Prop}

theorem values_assign {dict : MMDict} {entry : Text × MMValue}
    (h : ∀ value ∈ dict.values, P value) (hentry : P entry.2) :
    ∀ value ∈ (dict.assign entry).values, P value := by
  intro value hvalue
  obtain ⟨e, he, rfl⟩ := List.mem_map.1 hvalue
  cases List.mem_append.1 he with
  | inl he => exact h _ (mem_map_of_mem (List.mem_filter.1 he).1)
  | inr he =>
      rw [List.mem_singleton.1 he]
      exact hentry

theorem values_foldl {entries : List (Text × MMValue)} {dict : MMDict}
    (h : ∀ value ∈ dict.values, P value) (hentries : ∀ e ∈ entries, P e.2) :
    ∀ value ∈ (entries.foldl MMDict.assign dict).values, P value := by
  induction entries generalizing dict with
  | nil => exact h
  | cons entry entries ih =>
      obtain ⟨hentry, hrest⟩ := List.forall_mem_cons.1 hentries
      exact ih (values_assign h hentry) hrest

theorem returns_mmDict (hentry : Returns readMmEntry fun entry => P entry.2) :
    Returns readMmDict fun dict => ∀ value ∈ dict.values, P value := by
  refine .after fun size => (returns_readMany hentry _).bind fun entries h => .pure ?_
  exact values_foldl (fun value hvalue => absurd hvalue not_mem_nil) h.2

theorem returns_mmItem (hentry : Returns readMmEntry fun entry => P entry.2) :
    Returns readMmItem fun item => ∀ value ∈ item.data.values, P value :=
  .after fun _ => (returns_mmDict hentry).bind fun _ h => .after fun _ => .after fun _ =>
    .after fun _ => .after fun _ => .pure h

theorem returns_mmDataItems (hentry : Returns readMmEntry fun entry => P entry.2) :
    Returns readMmDataItems fun mmData =>
      mmData.holdsItems = true ∧ ∀ value ∈ mmData.values, P value := by
  refine .after fun type => .after fun size => ?_
  refine (returns_readMany (returns_mmItem hentry) _).bind fun items h => .pure ⟨rfl, ?_⟩
  intro value hvalue
  obtain ⟨item, hitem, hvalue⟩ := List.mem_flatMap.1 hvalue
  exact h.2 item hitem value hvalue

theorem returns_mmDataDict (hentry : Returns readMmEntry fun entry => P entry.2) :
    Returns readMmDataDict fun mmData =>
      mmData.holdsItems = false ∧ ∀ value ∈ mmData.values, P value :=
  .after fun _ => (returns_mmDict hentry).bind fun _ h => .pure ⟨rfl, h⟩

theorem returns_mmBatchData (hentry : Returns readMmEntry fun entry => P entry.2) :
    Returns readMmBatchData fun vec =>
      OneKind vec ∧ ∀ mmData ∈ vec, ∀ value ∈ mmData.values, P value := by
  refine .after fun size => .after fun isItem => ?_
  have heach : Returns (if isItem then readMmDataItems else readMmDataDict) fun mmData =>
      mmData.holdsItems = isItem ∧ ∀ value ∈ mmData.values, P value := by
    cases isItem with
    | true => exact returns_mmDataItems hentry
    | false => exact returns_mmDataDict hentry
  intro i vec i' hrun
  obtain ⟨-, hall⟩ := returns_readMany heach _ i vec i' hrun
  refine ⟨?_, fun mmData hmem => (hall mmData hmem).2⟩
  intro mmData hmem
  cases vec with
  | nil => exact absurd hmem not_mem_nil
  | cons first rest =>
      exact (hall mmData hmem).1.trans (hall first mem_cons_self).1.symm

end Values

theorem returns_sections : Returns readForwardInputSections fun result =>
    OneKind result.inputParams.mmData ∧
      ∀ mmData ∈ result.inputParams.mmData, ∀ value ∈ mmData.values, value.Countable :=
  .after fun _ => .after fun _ => .after fun _ => .after fun _ => .after fun _ =>
  .after fun _ => .after fun _ => .after fun _ => .after fun _ => .after fun _ =>
  .after fun _ => .after fun _ => .after fun _ => .after fun _ => .after fun _ =>
  .after fun _ => .after fun _ => .after fun _ => .after fun _ => .after fun _ =>
  .after fun _ => .after fun _ => .after fun _ => .after fun _ =>
  (returns_mmBatchData returns_mmEntry).bind fun _ h => .after fun _ => .after fun _ =>
    .after fun _ =>
  .after fun _ => .after fun _ => .after fun _ => .after fun _ => .after fun _ =>
  .after fun _ => .pure h

/-! The segment. -/

variable {d a : List UInt8}

theorem layout_of_writes (h : Writes 16 (serializeRawForwardInputSections input) d a) :
    calculateRawForwardInputLayout input = some ⟨d.length, a.length⟩ := by
  obtain ⟨o, hrun, hdescriptor, harena, -⟩ := h { descriptor := .counting, arena := .counting }
  rw [calculateRawForwardInputLayout, hrun]
  change some (RawInputLayoutHeader.mk o.descriptor.size o.arena.size) = _
  rw [hdescriptor, harena]
  simp [Section.counting]

def payload (d a : List UInt8) : List UInt8 :=
  Packed.bytes (UInt64.ofNat d.length) ++ (Packed.bytes (UInt64.ofNat a.length) ++ (d ++ a))

theorem serialize_of_writes (h : Writes 16 (serializeRawForwardInputSections input) d a) :
    ∃ placed, serializeRawForwardInput input ⟨d.length, a.length⟩ = some (payload d a, placed) ∧
      ∀ at' ∈ placed, 16 ∣ at' := by
  obtain ⟨o, hrun, hdescriptor, harena, haligned⟩ := h { descriptor := .empty, arena := .empty }
  have hplaced := haligned ⟨Nat.dvd_zero _, forall_mem_nil _⟩
  refine ⟨o.placed, ?_, hplaced.placed⟩
  rw [serializeRawForwardInput, hrun]
  simp only [Option.bind_eq_bind, Option.bind_some, hdescriptor, harena]
  simp [Section.empty, Section.push, payload]

@[simp] theorem length_payload : (payload d a).length = 16 + (d.length + a.length) := by
  rw [payload, length_append, length_append, length_append, ← Nat.add_assoc]
  rfl

def written (segment : List UInt8) (version : UInt64) (d a : List UInt8) : List UInt8 :=
  Packed.bytes version ++
    (Packed.bytes (UInt64.ofNat (16 + d.length + a.length)) ++ payload d a) ++
    segment.drop (32 + (d.length + a.length))

theorem totalSize_eq (d a : List UInt8) :
    totalSize ⟨d.length, a.length⟩ = 32 + (d.length + a.length) := by
  simp only [totalSize]
  change 8 + (8 + (16 + d.length + a.length)) = _
  omega

theorem rawInputWrite_of_writes (segment : List UInt8) (version : UInt64)
    (h : Writes 16 (serializeRawForwardInputSections input) d a)
    (room : 32 + (d.length + a.length) ≤ segment.length) :
    rawInputWrite segment version input = some (true, written segment version d a) := by
  obtain ⟨placed, hserialize, -⟩ := serialize_of_writes h
  have hlength : (Packed.bytes version ++
      (Packed.bytes (UInt64.ofNat (16 + d.length + a.length)) ++ payload d a)).length =
        32 + (d.length + a.length) := by
    rw [length_append, length_append,
      length_payload]
    change 8 + (8 + (16 + (d.length + a.length))) = _
    omega
  rw [rawInputWrite, layout_of_writes h]
  simp only [Option.bind_eq_bind, Option.bind_some, totalSize_eq, hserialize,
    getRawForwardInputLayoutSize, layoutHeaderSize, hlength]
  rw [if_neg (by omega)]
  simp [written]

variable {segment : List UInt8} {version : UInt64}

@[simp] theorem length_written (room : 32 + (d.length + a.length) ≤ segment.length) :
    (written segment version d a).length = segment.length := by
  rw [written, length_append, length_append, length_append, length_payload, length_drop]
  change 8 + (8 + (16 + (d.length + a.length))) + _ = _
  omega

theorem stands_of_eq {memory before found after : List UInt8} {p q : Nat}
    (h : memory = before ++ (found ++ after)) (hp : before.length = p) (hq : q ≤ memory.length)
    (hsize : memory.length < 2 ^ 63) : Stands ⟨memory, p, q⟩ found [] where
  descriptor := by
    change found <+: memory.drop p
    rw [h, drop_left' hp]
    exact prefix_append _ _
  arena := nil_prefix
  descriptor_le := by
    change p + found.length ≤ memory.length
    rw [h, length_append, length_append]
    omega
  arena_le := hq
  size_lt := hsize

theorem header_fits {dBytes aBytes : Nat} (h : 16 + dBytes + aBytes < 2 ^ 63) :
    UInt64.ofNat layoutHeaderSize ≤ UInt64.ofNat (16 + dBytes + aBytes) ∧
      UInt64.ofNat dBytes + UInt64.ofNat aBytes ≤
        UInt64.ofNat (16 + dBytes + aBytes) - UInt64.ofNat layoutHeaderSize := by
  have htotal : (UInt64.ofNat (16 + dBytes + aBytes)).toNat = 16 + dBytes + aBytes :=
    UInt64.toNat_ofNat_of_lt' (show _ < 2 ^ 64 by omega)
  have hheader : (UInt64.ofNat layoutHeaderSize).toNat = 16 := rfl
  have hle : UInt64.ofNat layoutHeaderSize ≤ UInt64.ofNat (16 + dBytes + aBytes) := by
    rw [UInt64.le_iff_toNat_le]
    omega
  refine ⟨hle, ?_⟩
  rw [UInt64.le_iff_toNat_le, UInt64.toNat_sub_of_le _ _ hle, UInt64.toNat_add,
    UInt64.toNat_ofNat_of_lt' (show dBytes < 2 ^ 64 by omega),
    UInt64.toNat_ofNat_of_lt' (show aBytes < 2 ^ 64 by omega)]
  omega

theorem rawInputRead_written {result : ForwardInput}
    (h : Reads readForwardInputSections result d a)
    (room : 32 + (d.length + a.length) ≤ segment.length) (hsize : segment.length < 2 ^ 63) :
    rawInputRead (written segment version d a) = some (result, {
      memory := written segment version d a
      descriptor := 32 + d.length
      arena := 32 + d.length + a.length }) := by
  have hlength : (written segment version d a).length = segment.length := length_written room
  have hword : ∀ x : UInt64, (Packed.bytes x).length = 8 := Packed.length_bytes
  have hmemory : written segment version d a = Packed.bytes version ++
      (Packed.bytes (UInt64.ofNat (16 + d.length + a.length)) ++
        (Packed.bytes (UInt64.ofNat d.length) ++ Packed.bytes (UInt64.ofNat a.length) ++
          (d ++ (a ++ segment.drop (32 + (d.length + a.length)))))) := by
    simp only [written, payload, append_assoc]
  generalize written segment version d a = memory at *
  -- the size of the payload
  have hsizeRead := reads_unpack (UInt64.ofNat (16 + d.length + a.length)) _
    (stands_of_eq hmemory (hword version) (Nat.zero_le _) (hlength ▸ hsize))
  -- the sizes of the sections
  rw [← append_assoc] at hmemory
  have hheader := (reads_unpack (UInt64.ofNat d.length)).bind
    (f := fun descriptorBytes => readData >>= fun tensorArenaBytes : UInt64 =>
      pure (descriptorBytes, tensorArenaBytes))
    ((reads_unpack (UInt64.ofNat a.length)).bind Reads.pure)
  rw [append_nil] at hheader
  have hheaderRead := hheader _ (stands_of_eq hmemory (p := 16) (q := 16)
    (by rw [length_append, hword, hword]) (by omega) (hlength ▸ hsize))
  -- the sections
  rw [← append_assoc] at hmemory
  have hdrop : memory.drop 32 = d ++ (a ++ segment.drop (32 + (d.length + a.length))) := by
    rw [hmemory]
    exact drop_left' (by simp only [length_append, hword])
  have hdescriptor : (UInt64.ofNat d.length).toNat = d.length :=
    UInt64.toNat_ofNat_of_lt' (show d.length < 2 ^ 64 by omega)
  have hsections := h { memory := memory, descriptor := 32, arena := 32 + d.length } {
    descriptor := hdrop ▸ prefix_append _ _
    arena := by
      change a <+: memory.drop (32 + d.length)
      rw [← drop_drop, hdrop, drop_left]
      exact prefix_append _ _
    descriptor_le := by
      change 32 + d.length ≤ memory.length
      omega
    arena_le := by
      change 32 + d.length + a.length ≤ memory.length
      omega
    size_lt := hlength ▸ hsize }
  obtain ⟨hfirst, hsecond⟩ : _ ∧ _ :=
    header_fits (show 16 + d.length + a.length < 2 ^ 63 by omega)
  simp only [hword] at hsizeRead hheaderRead
  rw [rawInputRead]
  change (unpack ⟨memory, 8, 0⟩).bind _ = _
  rw [hsizeRead]
  change Option.bind ((unpack >>= fun descriptorBytes : UInt64 => do
    let tensorArenaBytes : UInt64 ← readData
    pure (descriptorBytes, tensorArenaBytes)) ⟨memory, 16, 16⟩) _ = _
  rw [hheaderRead, Option.bind_some]
  simp only [guard, if_pos hfirst, if_pos hsecond, hdescriptor]
  exact hsections

theorem returns_rawInputRead {result : ForwardInput} {i : Codec.Input}
    (h : rawInputRead segment = some (result, i)) :
    OneKind result.inputParams.mmData ∧
      ∀ mmData ∈ result.inputParams.mmData, ∀ value ∈ mmData.values, value.Countable := by
  rw [rawInputRead] at h
  obtain ⟨⟨size, i₁⟩, -, h⟩ := Option.bind_eq_some_iff.1 h
  obtain ⟨⟨header, i₂⟩, -, h⟩ := Option.bind_eq_some_iff.1 h
  obtain ⟨_, -, h⟩ := Option.bind_eq_some_iff.1 h
  obtain ⟨_, -, h⟩ := Option.bind_eq_some_iff.1 h
  exact returns_sections _ _ _ h

/-- What the codec needs beyond plain values: lengths that are `int32_t` on the other
side, data of one kind, countable lists, and arguments that pass the checks of
`SamplingParameters::init`. -/
structure Regular (input : RawForwardInput) : Prop where
  maxSeqLen : input.maxSeqLen.toNat < 2 ^ 31
  qMaxSeqLen : input.qMaxSeqLen.toNat < 2 ^ 31
  oneKind : OneKind input.mmData
  countable : ∀ mmData ∈ input.mmData, ∀ value ∈ mmData.values, value.Countable
  sampling : input.sampling.isSome = true

/-- The worker has every field of the input. -/
def Carries (input : RawForwardInput) (result : ForwardInput) : Prop :=
  (∃ samplingParams, input.sampling = some samplingParams ∧
    result = input.forwardInput samplingParams) ∧
  result.inputParams.kvMaxSeqLen.toInt = input.maxSeqLen.toNat ∧
  result.inputParams.qMaxSeqLen.toInt = input.qMaxSeqLen.toNat

/-- The layout of the dry run is what the real pass writes and no check fails, tensors are
aligned, and a worker that reads the segment has every field of the input, with both
cursors at the end of their sections. -/
def RoundTrips (segment : List UInt8) (version : UInt64) (input : RawForwardInput) : Prop :=
  ∃ layout bytes placed segment' result i,
    calculateRawForwardInputLayout input = some layout ∧
    serializeRawForwardInput input layout = some (bytes, placed) ∧
    bytes.length = getRawForwardInputLayoutSize layout ∧
    (∀ at' ∈ placed, kRawInputTensorArenaAlignment ∣ at') ∧
    rawInputWrite segment version input = some (true, segment') ∧
    rawInputRead segment' = some (result, i) ∧
    input.Carries result ∧
    i.descriptor = 32 + layout.descriptorBytes ∧
    i.arena = 32 + layout.descriptorBytes + layout.tensorArenaBytes

@[simp] theorem toInt_toInt32 {x : UInt32} (h : x.toNat < 2 ^ 31) : x.toInt32.toInt = x.toNat := by
  have hx : x.toInt32 = Int32.ofNat x.toNat := by
    rw [← UInt32.toInt32_ofNat', UInt32.ofNat_toNat]
  rw [hx, Int32.toInt_ofNat_of_lt h]

theorem toNat_lt_of_toInt {x : UInt32} {y : Int32} (h : y.toInt = x.toNat) :
    x.toNat < 2 ^ 31 := by
  have hlt := y.toInt_lt
  omega

theorem regular_of_roundTrips (h : input.RoundTrips segment version) : input.Regular := by
  obtain ⟨layout, bytes, placed, segment', result, i, -, -, -, -, -, hread,
    ⟨⟨samplingParams, hsampling, rfl⟩, hmax, hqMax⟩, -, -⟩ := h
  obtain ⟨hkind, hcount⟩ := returns_rawInputRead hread
  exact ⟨toNat_lt_of_toInt hmax, toNat_lt_of_toInt hqMax, hkind, hcount,
    Option.isSome_of_eq_some hsampling⟩

theorem roundTrips_of_regular (plain : input.Plain)
    (hsize : segment.length < 2 ^ 63)
    (room : ∀ layout, calculateRawForwardInputLayout input = some layout →
      totalSize layout ≤ segment.length) (regular : input.Regular) :
    input.RoundTrips segment version := by
  obtain ⟨samplingParams, hsampling⟩ := Option.isSome_iff_exists.1 regular.sampling
  obtain ⟨d, a, hw, hr⟩ := roundTrip_sections plain regular.oneKind regular.countable hsampling
  have hlayout := layout_of_writes hw
  have hroom : 32 + (d.length + a.length) ≤ segment.length := totalSize_eq d a ▸ room _ hlayout
  obtain ⟨placed, hserialize, haligned⟩ := serialize_of_writes hw
  refine ⟨_, _, placed, _, _, _, hlayout, hserialize, ?_, haligned,
    rawInputWrite_of_writes segment version hw hroom, rawInputRead_written hr hroom hsize,
    ⟨⟨samplingParams, hsampling, rfl⟩, ?_, ?_⟩, rfl, rfl⟩
  · rw [length_payload, getRawForwardInputLayoutSize, layoutHeaderSize, Nat.add_assoc]
  · exact toInt_toInt32 regular.maxSeqLen
  · exact toInt_toInt32 regular.qMaxSeqLen

/-- A segment that is large enough carries a plain input to a worker if and only if the
input is regular. -/
theorem roundTrips_iff_regular (segment : List UInt8) (version : UInt64)
    (input : RawForwardInput) (plain : input.Plain) (hsize : segment.length < 2 ^ 63)
    (room : ∀ layout, calculateRawForwardInputLayout input = some layout →
      totalSize layout ≤ segment.length) :
    input.RoundTrips segment version ↔ input.Regular :=
  ⟨regular_of_roundTrips, roundTrips_of_regular plain hsize room⟩

/-- An image of two tensors and a decoding step. -/
def sampleInput : RawForwardInput where
  flattenTokensVec := [7]
  flattenPositionsVec := [3]
  maxSeqLen := 4
  qMaxSeqLen := 1
  seqLens := [4]
  qSeqLens := [1]
  embeddings := [[.one, .zero]]
  requestIds := [[0x61], []]
  mmData := [⟨1, .items [⟨1, ⟨[([0x70], .tensors [none, torchTensor [(5 : Int32)]])], by decide⟩,
    0, 2, default, 0⟩]⟩]

theorem sampleInput_roundTrips :
    sampleInput.Plain ∧ sampleInput.Regular ∧
      sampleInput.RoundTrips (List.replicate 1024 0) 1 := by
  have plain : sampleInput.Plain := by
    refine ⟨by decide, by decide, by decide, by decide, by decide, by decide, ?_⟩
    decide
  have regular : sampleInput.Regular := by
    refine ⟨by decide, by decide, ?_, ?_, rfl⟩
    · intro mmData hmem
      rw [List.mem_singleton.1 hmem]
      rfl
    · intro mmData hmem value hvalue
      rw [List.mem_singleton.1 hmem] at hvalue
      rw [List.mem_singleton.1 hvalue]
      change 2 < 2 ^ 31
      decide
  refine ⟨plain, regular, ?_⟩
  have hlength : (List.replicate 1024 (0 : UInt8)).length = 1024 := length_replicate ..
  refine (roundTrips_iff_regular _ _ sampleInput plain (by rw [hlength]; decide) ?_).2 regular
  intro layout h
  have htotal : (calculateRawForwardInputLayout sampleInput).map totalSize = some 746 := by
    decide +kernel
  rw [h] at htotal
  rw [Option.some.inj htotal, hlength]
  decide

/-- A batch with a vector of items and a dictionary. -/
def mixedInput : RawForwardInput where
  mmData := [⟨1, .items []⟩, ⟨1, .dict .empty⟩]

theorem mixedInput_lost : mixedInput.Plain ∧
    ∀ segment version, ¬ mixedInput.RoundTrips segment version := by
  refine ⟨⟨by decide, by decide, by decide, by decide, by decide, by decide, by decide⟩, ?_⟩
  intro segment version h
  have hkind := (regular_of_roundTrips h).oneKind
  have hsecond := hkind ⟨1, .dict .empty⟩ (by simp [mixedInput])
  cases hsecond

end RawForwardInput

end Xllm.SharedMemory
