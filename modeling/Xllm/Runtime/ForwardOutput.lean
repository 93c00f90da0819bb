import Xllm.Runtime.FieldCodec

/-!
# Sending the output of a forward step

A worker writes a `RawForwardOutput` into a shared memory segment and the scheduler process
reads it. There is one section only: the elements of a tensor follow its description. How
much room is needed is computed before from a third list of the fields.

The three lists differ. The size counts the vectors of the beam search, which are neither
written nor read, and leaves out the multimodal embeddings, which are.
-/

namespace Xllm.SharedMemory

open Codec List

structure RawToken where
  id : Int64 := 0
  logprob : Option FloatBits := none
  topTokens : List Int64 := []
  topLogprobs : List FloatBits := []
  embeddings : List FloatBits := []
  deriving DecidableEq

structure RawSampleOutput where
  tokens : List RawToken
  deriving DecidableEq

structure DiTForwardOutput where
  tensors : List Tensor := []
  deriving DecidableEq

structure RawForwardOutput where
  outputs : List RawSampleOutput := []
  expertLoadData : List Int64 := []
  preparedLayerId : Int32 := 0
  srcSeqIdxes : List Int32 := []
  outTokens : List Int32 := []
  outLogprobs : List FloatBits := []
  beamSequenceGroup : List Int32 := []
  mmEmbeddings : List Tensor := []
  ditForwardOutput : DiTForwardOutput := {}
  deriving DecidableEq

section Size

variable {α : Type}

def getVectorSize [Packed α] (vec : List α) : Nat :=
  Packed.size UInt64 + vec.length * Packed.size α

def getTensorSize (tensor : Tensor) : Nat :=
  match tensor with
  | none => Packed.size UInt64
  | some t => Packed.size UInt64 + Packed.size UInt64 * t.shape.length + Packed.size Int8 +
      Packed.size UInt64 + t.shape.prod * t.dtype.elementSize

def getDitForwardOutputSize (output : DiTForwardOutput) : Nat :=
  Packed.size UInt64 + (output.tensors.map getTensorSize).sum

def calculateRawTokenSize (token : RawToken) : Nat :=
  Packed.size Int64 + Packed.size Bool +
    (if token.logprob.isSome then Packed.size FloatBits else 0) +
    (Packed.size UInt64 + token.topTokens.length * Packed.size Int64) +
    (Packed.size UInt64 + token.topLogprobs.length * Packed.size FloatBits) +
    (Packed.size UInt64 + token.embeddings.length * Packed.size FloatBits)

def calculateRawSampleOutputSize (sample : RawSampleOutput) : Nat :=
  Packed.size UInt64 + (sample.tokens.map calculateRawTokenSize).sum

def calculateRawForwardOutputSize (output : RawForwardOutput) : Nat :=
  Packed.size UInt64 + (output.outputs.map calculateRawSampleOutputSize).sum +
    getVectorSize output.expertLoadData + getVectorSize output.srcSeqIdxes +
    getVectorSize output.outTokens + getVectorSize output.outLogprobs +
    Packed.size Int32 + getDitForwardOutputSize output.ditForwardOutput

end Size

/-- `write_tensor` into a buffer of one section. -/
def writeTensorInline (tensor : Tensor) : Writer :=
  match tensor with
  | none => writeData (0 : UInt64)
  | some t => do
      writeData (UInt64.ofNat t.shape.length)
      t.shape.forM fun size => writeData (UInt64.ofNat size)
      writeData t.dtype.toInt8
      writeData (UInt64.ofNat (t.shape.prod * t.dtype.elementSize))
      put t.data

def writeVectorTensor (tensorVec : List Tensor) : Writer := do
  writeData (Int32.ofNat tensorVec.length)
  tensorVec.forM writeTensorInline

def writeDitForwardOutput (output : DiTForwardOutput) : Writer := do
  writeData (UInt64.ofNat output.tensors.length)
  output.tensors.forM writeTensorInline

/-- The log probability in `write_raw_token`. -/
def writeLogprob (logprob : Option FloatBits) : Writer := do
  writeData logprob.isSome
  match logprob with
  | none => pure ()
  | some value => writeData value

def writeRawToken (token : RawToken) : Writer := do
  writeData token.id
  writeLogprob token.logprob
  writeVector token.topTokens
  writeVector token.topLogprobs
  writeVector token.embeddings

def writeRawSampleOutput (sample : RawSampleOutput) : Writer := do
  writeData (UInt64.ofNat sample.tokens.length)
  sample.tokens.forM writeRawToken

def serializeRawForwardOutput (output : RawForwardOutput) : Writer := do
  writeData (UInt64.ofNat output.outputs.length)
  output.outputs.forM writeRawSampleOutput
  writeVector output.expertLoadData
  writeData output.preparedLayerId
  writeVectorTensor output.mmEmbeddings
  writeDitForwardOutput output.ditForwardOutput

def RawForwardOutput.serialized (output : RawForwardOutput) : Option (List UInt8) := do
  let (_, o) ← serializeRawForwardOutput output { descriptor := .empty, arena := .empty }
  o.descriptor.bytes

/-- `raw_output_write`, for the output that was made of the tensors: whether it was written,
and the segment afterwards. Bytes behind the end of the segment fail. -/
def rawOutputWrite (segment : List UInt8) (version : UInt64) (output : RawForwardOutput) :
    Option (Bool × List UInt8) :=
  if segment.length < controlMetadataSize + calculateRawForwardOutputSize output then
    some (false, segment)
  else do
    let bytes ← output.serialized
    let written := Packed.bytes version ++ bytes
    guard (written.length ≤ segment.length)
    return (true, written ++ segment.drop written.length)

/-- `torch::from_blob` at the cursor, which then moves by the announced number of bytes. -/
def fromBlobInline (info : TensorMeta) : Reader TensorData := do
  guard (info.shape.all fun size => 0 ≤ size.toInt)
  let dtype ← ScalarType.ofInt8 info.dtype
  let shape := info.shape.map fun size => size.toInt.toNat
  let data ← takeInline (shape.prod * dtype.elementSize) info.dataBytes.toNat
  tensorOf shape dtype data
where
  takeInline (n size : Nat) : Reader (List UInt8) := fun i =>
    (bytesAt i.memory i.descriptor n).map fun b =>
      (b, { i with descriptor := i.descriptor + size })

/-- `read_tensor` from a buffer of one section, into a new tensor. -/
def readTensorInline : Reader Tensor := do
  let info ← readTensorMeta
  if info.shape = [] then return none
  else some <$> fromBlobInline info

def readVectorTensor : Reader (List Tensor) := do
  let tensorNum : Int32 ← readData
  guard (0 ≤ tensorNum.toInt)
  readMany readTensorInline tensorNum.toInt.toNat

def readDitForwardOutput : Reader DiTForwardOutput := do
  let size : UInt64 ← readData
  let tensors ← readMany readTensorInline size.toNat
  return ⟨tensors⟩

/-- The log probability in `read_raw_token`. -/
def readLogprob : Reader (Option FloatBits) := do
  let hasLogprob : Bool ← readData
  if hasLogprob then some <$> readData else return none

def readRawToken : Reader RawToken := do
  let id ← readData
  let logprob ← readLogprob
  let topTokens ← readVector
  let topLogprobs ← readVector
  let embeddings ← readVector
  return ⟨id, logprob, topTokens, topLogprobs, embeddings⟩

def readRawSampleOutput : Reader RawSampleOutput := do
  let tokenCount : UInt64 ← readData
  let tokens ← readMany readRawToken tokenCount.toNat
  return ⟨tokens⟩

def deserializeRawForwardOutput : Reader RawForwardOutput := do
  let outputsCount : UInt64 ← readData
  let outputs ← readMany readRawSampleOutput outputsCount.toNat
  let expertLoadData ← readVector
  let preparedLayerId ← readData
  let mmEmbeddings ← readVectorTensor
  let ditForwardOutput ← readDitForwardOutput
  return {
    outputs := outputs
    expertLoadData := expertLoadData
    preparedLayerId := preparedLayerId
    mmEmbeddings := mmEmbeddings
    ditForwardOutput := ditForwardOutput }

def RawForwardOutput.ofBytes (bytes : List UInt8) : Option RawForwardOutput := do
  let (output, _) ← deserializeRawForwardOutput { memory := bytes, descriptor := 0, arena := 0 }
  return output

section Written

variable {α : Type}

theorem emits_data [Packed α] (x : α) : Emits 16 (writeData x) (Packed.size α) := .packed x

theorem emits_vector [Packed α] (vec : List α) :
      Emits 16 (writeVector vec) (getVectorSize vec) := by
  have h := (emits_data (UInt64.ofNat vec.length)).bind (f := fun _ => put (vectorBytes vec))
    (.put (vectorBytes vec))
  rwa [length_vectorBytes] at h

theorem emits_tensorInline (tensor : Tensor) :
    Emits 16 (writeTensorInline tensor) (getTensorSize tensor) := by
  cases tensor with
  | none => exact emits_data _
  | some t =>
      have hsizes : Emits 16 (t.shape.forM fun size => writeData (UInt64.ofNat size))
          (t.shape.map fun _ => Packed.size UInt64).sum :=
        .forM fun size _ => emits_data (UInt64.ofNat size)
      have h := (emits_data (UInt64.ofNat t.shape.length)).bind (f := fun _ => _) <|
        hsizes.bind (f := fun _ => _) <| (emits_data t.dtype.toInt8).bind (f := fun _ => _) <|
        (emits_data (UInt64.ofNat (t.shape.prod * t.dtype.elementSize))).bind (f := fun _ => _) <|
        Emits.put t.data
      rw [t.length_data, map_const', sum_replicate_nat,
        Nat.mul_comm t.shape.length] at h
      simp only [getTensorSize, Nat.add_assoc]
      exact h

theorem emits_logprob (logprob : Option FloatBits) :
    Emits 16 (writeLogprob logprob)
      (Packed.size Bool + if logprob.isSome then Packed.size FloatBits else 0) := by
  refine (emits_data logprob.isSome).bind ?_
  cases logprob with
  | none => exact ⟨[], Writes.pure, rfl⟩
  | some value => exact emits_data value

theorem emits_rawToken (token : RawToken) :
    Emits 16 (writeRawToken token) (calculateRawTokenSize token) := by
  have h := (emits_data token.id).bind (f := fun _ => _) <|
    (emits_logprob token.logprob).bind (f := fun _ => _) <|
    (emits_vector token.topTokens).bind (f := fun _ => _) <|
    (emits_vector token.topLogprobs).bind (f := fun _ => _) <| emits_vector token.embeddings
  simp only [getVectorSize, ← Nat.add_assoc] at h
  simp only [calculateRawTokenSize, ← Nat.add_assoc]
  exact h

theorem emits_rawSampleOutput (sample : RawSampleOutput) :
    Emits 16 (writeRawSampleOutput sample) (calculateRawSampleOutputSize sample) :=
  (emits_data (UInt64.ofNat sample.tokens.length)).bind <|
    .forM fun token _ => emits_rawToken token

theorem emits_tensors (tensors : List Tensor) :
    Emits 16 (tensors.forM writeTensorInline) (tensors.map getTensorSize).sum :=
  .forM fun tensor _ => emits_tensorInline tensor

/-- The number of bytes that `serialize_raw_forward_output` writes. -/
def RawForwardOutput.writtenSize (output : RawForwardOutput) : Nat :=
  Packed.size UInt64 + ((output.outputs.map calculateRawSampleOutputSize).sum +
    (getVectorSize output.expertLoadData + (Packed.size Int32 +
      ((Packed.size Int32 + (output.mmEmbeddings.map getTensorSize).sum) +
        getDitForwardOutputSize output.ditForwardOutput))))

theorem emits_rawForwardOutput (output : RawForwardOutput) :
    Emits 16 (serializeRawForwardOutput output) output.writtenSize :=
  (emits_data (UInt64.ofNat output.outputs.length)).bind <|
    (Emits.forM fun sample _ => emits_rawSampleOutput sample).bind <|
    (emits_vector output.expertLoadData).bind <| (emits_data output.preparedLayerId).bind <|
    ((emits_data (Int32.ofNat output.mmEmbeddings.length)).bind
      (emits_tensors output.mmEmbeddings)).bind <|
    (emits_data (UInt64.ofNat output.ditForwardOutput.tensors.length)).bind
      (emits_tensors output.ditForwardOutput.tensors)

theorem serialized_of_writes {output : RawForwardOutput} {d a : List UInt8}
    (h : Writes 16 (serializeRawForwardOutput output) d a) : output.serialized = some d := by
  obtain ⟨o, hrun, hdescriptor, -⟩ := h { descriptor := .empty, arena := .empty }
  rw [RawForwardOutput.serialized, hrun]
  simp [hdescriptor, Section.push, Section.empty]

theorem exists_serialized (output : RawForwardOutput) :
    ∃ bytes, output.serialized = some bytes ∧ bytes.length = output.writtenSize := by
  obtain ⟨d, hw, hlength⟩ := emits_rawForwardOutput output
  exact ⟨d, serialized_of_writes hw, hlength⟩

end Written

section Read

theorem writes_tensorInline (t : TensorData) :
    Writes 16 (writeTensorInline (some t)) (describe t.shape t.dtype t.data.length ++ t.data)
      [] := by
  have h := (writes_data (UInt64.ofNat t.shape.length)).bind (f := fun _ => _) <|
    (writes_sizes t.shape).bind (f := fun _ => _) <|
    (writes_data t.dtype.toInt8).bind (f := fun _ => _) <|
    (writes_data (UInt64.ofNat (t.shape.prod * t.dtype.elementSize))).bind (f := fun _ => _) <|
    writes_put t.data
  simp only [describe, append_assoc]
  rw [t.length_data]
  exact h

theorem reads_fromBlobInline (t : TensorData) :
    Reads (fromBlobInline (tensorMeta t.shape t.dtype t.data.length)) t t.data [] := by
  intro i hi
  have hroom := hi.descriptor_le
  have hlt := hi.size_lt
  have hbytes : (UInt64.ofNat t.data.length).toNat = t.data.length :=
    UInt64.toNat_ofNat_of_lt' (show t.data.length < 2 ^ 64 by omega)
  rw [fromBlobInline, tensorMeta]
  simp only [ScalarType.ofInt8_toInt8, map_sizes t.sizes_lt, hbytes, guard,
    if_pos (nonneg_sizes t.sizes_lt)]
  change (fromBlobInline.takeInline (t.shape.prod * t.dtype.elementSize) t.data.length i).bind
    (fun p => (tensorOf t.shape t.dtype p.1).bind fun x => some (x, p.2)) = _
  rw [← t.length_data, fromBlobInline.takeInline, bytesAt_of_prefix hi.descriptor rfl hroom,
    Option.map_some, Option.bind_some, tensorOf_data]
  rfl

theorem reads_tensorInline (t : TensorData) (hne : t.shape ≠ []) :
    Reads readTensorInline (some t) (describe t.shape t.dtype t.data.length ++ t.data) [] := by
  have hshape : (tensorMeta t.shape t.dtype t.data.length).shape ≠ [] := by
    exact fun h => hne (List.map_eq_nil_iff.1 h)
  have hblob : Reads (if (tensorMeta t.shape t.dtype t.data.length).shape = [] then pure none
      else some <$> fromBlobInline (tensorMeta t.shape t.dtype t.data.length)) (some t) t.data
      [] := by
    rw [if_neg hshape]
    have hmap := (reads_fromBlobInline t).bind (f := fun t => pure (some t)) Reads.pure
    rwa [append_nil] at hmap
  exact (reads_tensorMeta t.dtype t.data.length hne).bind
    (f := fun info => if info.shape = [] then pure none else some <$> fromBlobInline info) hblob

theorem framed_tensorInline {tensor : Tensor} (h : HasDimensions tensor) :
    Framed 16 (writeTensorInline tensor) readTensorInline tensor := by
  cases tensor with
  | none =>
      exact ((framed_data (0 : UInt64)).done (y := TensorMeta.mk [] ScalarType.float.toInt8 0)
        fun _ => rfl).done fun _ => rfl
  | some t =>
      refine ⟨_, _, ?_, writes_tensorInline t, reads_tensorInline t (h t rfl)⟩
      simp [describe_ne_nil]

theorem framed_logprob (logprob : Option FloatBits) :
    Framed 16 (writeLogprob logprob) readLogprob logprob := by
  refine (framed_data logprob.isSome).bind ?_
  cases logprob with
  | none => exact RoundTrip.pure _
  | some value =>
      exact (framed_data value).roundTrip.done (g := fun value => pure (some value)) fun _ => rfl

theorem framed_rawToken (token : RawToken) :
    Framed 16 (writeRawToken token) readRawToken token :=
  (framed_data _).bind <| (framed_logprob _).roundTrip.bind <|
    (framed_vector _).roundTrip.bind <| (framed_vector _).roundTrip.bind <|
    (framed_vector _).roundTrip.done fun _ => rfl

theorem framed_rawSampleOutput (sample : RawSampleOutput) :
    Framed 16 (writeRawSampleOutput sample) readRawSampleOutput sample :=
  Framed.list fun token _ => framed_rawToken token

theorem framed_vectorTensor {tensors : List Tensor}
    (h : ∀ tensor ∈ tensors, HasDimensions tensor) (hlt : tensors.length < 2 ^ 31) :
    Framed 16 (writeVectorTensor tensors) readVectorTensor tensors := by
  have hint : (Int32.ofNat tensors.length).toInt = tensors.length :=
    Int32.toInt_ofNat_of_lt hlt
  refine (framed_data (Int32.ofNat tensors.length)).bind ?_
  obtain ⟨d, a, -, hw, hr⟩ := framed_forM fun tensor htensor =>
    framed_tensorInline (h tensor htensor)
  refine ⟨d, a, hw, ?_⟩
  rw [hint]
  exact hr

theorem framed_ditForwardOutput {output : DiTForwardOutput}
    (h : ∀ tensor ∈ output.tensors, HasDimensions tensor) :
    Framed 16 (writeDitForwardOutput output) readDitForwardOutput output :=
  Framed.list fun tensor htensor => framed_tensorInline (h tensor htensor)

end Read

namespace RawForwardOutput

variable {output : RawForwardOutput}

/-- No vector of a beam search, and a number of multimodal embeddings that can be written. -/
structure Regular (output : RawForwardOutput) : Prop where
  srcSeqIdxes : output.srcSeqIdxes = []
  outTokens : output.outTokens = []
  outLogprobs : output.outLogprobs = []
  beamSequenceGroup : output.beamSequenceGroup = []
  mmEmbeddings : output.mmEmbeddings.length < 2 ^ 31

def tensors (output : RawForwardOutput) : List Tensor :=
  output.mmEmbeddings ++ output.ditForwardOutput.tensors

/-- A regular output is read back. -/
theorem roundTrip_of_regular (hregular : output.Regular)
    (hdimensions : ∀ tensor ∈ output.tensors, HasDimensions tensor) :
    RoundTrip 16 (serializeRawForwardOutput output) deserializeRawForwardOutput output := by
  have hmm := framed_vectorTensor
    (fun tensor htensor => hdimensions tensor (mem_append_left _ htensor))
    hregular.mmEmbeddings
  have hdit := framed_ditForwardOutput
    (fun tensor htensor => hdimensions tensor (mem_append_right _ htensor))
  have heq : output = { output with
      srcSeqIdxes := []
      outTokens := []
      outLogprobs := []
      beamSequenceGroup := [] } := by
    obtain ⟨h₁, h₂, h₃, h₄, -⟩ := hregular
    cases output
    simp_all
  exact RoundTrip.list (fun sample _ => framed_rawSampleOutput sample) <|
    (framed_vector _).roundTrip.bind <| (framed_data _).roundTrip.bind <|
    hmm.roundTrip.bind <| hdit.roundTrip.done fun i => congrArg (fun o => some (o, i)) heq.symm

theorem ofBytes_of_regular (hregular : output.Regular)
    (hdimensions : ∀ tensor ∈ output.tensors, HasDimensions tensor)
    (hlt : output.writtenSize < 2 ^ 63) :
    ∃ bytes, output.serialized = some bytes ∧ ofBytes bytes = some output := by
  obtain ⟨d, a, hw, hr⟩ := roundTrip_of_regular hregular hdimensions
  obtain ⟨d', hw', hlength⟩ := emits_rawForwardOutput output
  have hd : d = d' := Option.some.inj
    ((serialized_of_writes hw).symm.trans (serialized_of_writes hw'))
  have ha : a = [] := by
    obtain ⟨o, hrun, -, harena, -⟩ := hw { descriptor := .empty, arena := .empty }
    obtain ⟨o', hrun', -, harena', -⟩ := hw' { descriptor := .empty, arena := .empty }
    obtain rfl : o = o' := congrArg Prod.snd (Option.some.inj (hrun.symm.trans hrun'))
    have hbytes := congrArg Section.bytes (harena.symm.trans harena')
    exact Option.some.inj hbytes
  subst hd ha
  refine ⟨d, serialized_of_writes hw, ?_⟩
  have hread := hr { memory := d, descriptor := 0, arena := 0 } {
    descriptor := prefix_refl d
    arena := nil_prefix
    descriptor_le := (Nat.zero_add _).le
    arena_le := Nat.zero_le _
    size_lt := hlength ▸ hlt }
  rw [ofBytes, hread]
  rfl

theorem returns_vectorTensor :
    Returns readVectorTensor fun tensors => tensors.length < 2 ^ 31 := by
  refine .after fun tensorNum => .after fun _ => ?_
  intro i tensors i' hrun
  have htrue : Returns readTensorInline fun _ => True := fun _ _ _ _ => trivial
  rw [(returns_readMany htrue _ i tensors i' hrun).1]
  have hint := tensorNum.toInt_lt
  omega

theorem returns_deserialize : Returns deserializeRawForwardOutput Regular := by
  refine .after fun outputsCount => .after fun outputs => .after fun expertLoadData =>
    .after fun preparedLayerId => returns_vectorTensor.bind fun mmEmbeddings hmm =>
    .after fun ditForwardOutput => .pure ⟨rfl, rfl, rfl, rfl, hmm⟩

theorem regular_of_ofBytes {bytes : List UInt8} (h : ofBytes bytes = some output) :
    output.Regular := by
  obtain ⟨⟨result, i⟩, hrun, hresult⟩ := Option.bind_eq_some_iff.1 h
  obtain rfl := Option.some.inj hresult
  exact returns_deserialize _ _ _ hrun

/-- The bytes of the multimodal embeddings, without their number. -/
def mmSize (output : RawForwardOutput) : Nat := (output.mmEmbeddings.map getTensorSize).sum

def beamLength (output : RawForwardOutput) : Nat :=
  output.srcSeqIdxes.length + output.outTokens.length + output.outLogprobs.length

/-- The size counts three vectors that are not written, and not the embeddings behind
their number. -/
theorem size_add_mmSize (output : RawForwardOutput) :
    calculateRawForwardOutputSize output + output.mmSize =
      output.writtenSize + (20 + 4 * output.beamLength) := by
  have hint : Packed.size Int32 = 4 := rfl
  have hfloat : Packed.size FloatBits = 4 := rfl
  have hcount : Packed.size UInt64 = 8 := rfl
  simp only [calculateRawForwardOutputSize, writtenSize, mmSize, beamLength,
    getVectorSize, hint, hfloat]
  omega

/-- `calculate_raw_forward_output_size` is the number of bytes that are written. -/
def SizeExact (output : RawForwardOutput) : Prop :=
  ∃ bytes, output.serialized = some bytes ∧ calculateRawForwardOutputSize output = bytes.length

/-- `raw_output_write` does not write behind the end of a segment. -/
def StaysInside (output : RawForwardOutput) : Prop :=
  ∀ segment version, (rawOutputWrite segment version output).isSome

/-- `deserialize_raw_forward_output` returns the output that was written. -/
def RoundTrips (output : RawForwardOutput) : Prop :=
  ∃ bytes, output.serialized = some bytes ∧ ofBytes bytes = some output

theorem sizeExact_iff : output.SizeExact ↔ output.mmSize = 20 + 4 * output.beamLength := by
  obtain ⟨bytes, hbytes, hlength⟩ := exists_serialized output
  have hsize := size_add_mmSize output
  constructor
  · rintro ⟨bytes', hbytes', heq⟩
    obtain rfl := Option.some.inj (hbytes.symm.trans hbytes')
    omega
  · intro h
    exact ⟨bytes, hbytes, by omega⟩

theorem isSome_rawOutputWrite {segment bytes : List UInt8} (version : UInt64)
    (h : output.serialized = some bytes) :
    (rawOutputWrite segment version output).isSome ↔
      segment.length < 8 + calculateRawForwardOutputSize output ∨
        8 + bytes.length ≤ segment.length := by
  have hwritten : (Packed.bytes version ++ bytes).length = 8 + bytes.length := by
    rw [length_append]
    rfl
  rw [rawOutputWrite, controlMetadataSize, h]
  split
  · simp only [Option.isSome_some, true_iff]
    exact Or.inl ‹_›
  · simp only [Option.bind_eq_bind, Option.bind_some, hwritten]
    by_cases hroom : 8 + bytes.length ≤ segment.length
    · simp [hroom]
    · simp [hroom]
      omega

theorem staysInside_iff : output.StaysInside ↔ output.mmSize ≤ 20 + 4 * output.beamLength := by
  obtain ⟨bytes, hbytes, hlength⟩ := exists_serialized output
  have hsize := size_add_mmSize output
  constructor
  · intro h
    have hexact := (isSome_rawOutputWrite 0 hbytes).1
      (h (List.replicate (8 + calculateRawForwardOutputSize output) 0) 0)
    rw [length_replicate] at hexact
    omega
  · intro h segment version
    rw [isSome_rawOutputWrite version hbytes]
    omega

theorem roundTrips_iff (hdimensions : ∀ tensor ∈ output.tensors, HasDimensions tensor)
    (hlt : output.writtenSize < 2 ^ 63) : output.RoundTrips ↔ output.Regular := by
  constructor
  · rintro ⟨bytes, -, hread⟩
    exact regular_of_ofBytes hread
  · intro hregular
    exact ofBytes_of_regular hregular hdimensions hlt

theorem sum_getTensorSize {tensors : List Tensor}
    (h : ∀ tensor ∈ tensors, HasDimensions tensor) :
    (tensors.map getTensorSize).sum ∈ [0, 8, 16] ∨ 24 ≤ (tensors.map getTensorSize).sum := by
  induction tensors with
  | nil => exact Or.inl mem_cons_self
  | cons tensor tensors ih =>
      have hrest := ih fun tensor' htensor => h tensor' (mem_cons_of_mem _ htensor)
      have hfirst : getTensorSize tensor = 8 ∨ 24 ≤ getTensorSize tensor := by
        cases tensor with
        | none => exact Or.inl rfl
        | some t =>
            have hne := List.length_pos_iff.2 (h (some t) mem_cons_self t rfl)
            have hcount : Packed.size UInt64 = 8 := rfl
            rw [getTensorSize, hcount]
            omega
      simp only [map_cons, sum_cons, mem_cons, not_mem_nil, or_false]
        at hrest ⊢
      omega

/-- No output has an exact size and is read back: an exact size needs the bytes of a beam
search or of embeddings that are just as long. Each of the three properties holds under a
condition of its own. -/
theorem outputCodec_never_exact (output : RawForwardOutput)
    (hdimensions : ∀ tensor ∈ output.tensors, HasDimensions tensor) :
    ¬ (output.SizeExact ∧ output.StaysInside ∧ output.RoundTrips) ∧
      (output.SizeExact ↔ output.mmSize = 20 + 4 * output.beamLength) ∧
      (output.StaysInside ↔ output.mmSize ≤ 20 + 4 * output.beamLength) ∧
      (output.writtenSize < 2 ^ 63 → (output.RoundTrips ↔ output.Regular)) := by
  refine ⟨?_, sizeExact_iff, staysInside_iff, roundTrips_iff hdimensions⟩
  rintro ⟨hexact, -, bytes, -, hread⟩
  have hregular := regular_of_ofBytes hread
  have hsize := sizeExact_iff.1 hexact
  have hmm : ∀ tensor ∈ output.mmEmbeddings, HasDimensions tensor :=
    fun tensor htensor => hdimensions tensor (mem_append_left _ htensor)
  have hsum := sum_getTensorSize hmm
  rw [mmSize, beamLength, hregular.srcSeqIdxes, hregular.outTokens, hregular.outLogprobs] at hsize
  rw [hsize] at hsum
  simp at hsum

/-- The embedding of an image, with one element. -/
def imageOutput : RawForwardOutput where
  mmEmbeddings := [torchTensor [FloatBits.one]]

theorem hasDimensions_imageOutput : ∀ tensor ∈ imageOutput.tensors, HasDimensions tensor := by
  decide

theorem imageOutput_not_exact :
    ¬ imageOutput.SizeExact ∧ ¬ imageOutput.StaysInside ∧ imageOutput.RoundTrips := by
  obtain ⟨-, hsize, hinside, hround⟩ :=
    outputCodec_never_exact imageOutput hasDimensions_imageOutput
  have hmm : imageOutput.mmSize = 29 := by decide
  have hbeam : imageOutput.beamLength = 0 := rfl
  rw [hsize, hinside, hround (by decide)]
  exact ⟨by decide, by decide, rfl, rfl, rfl, rfl, by decide⟩

/-- The beam search has chosen a token of the first sequence. -/
def beamOutput : RawForwardOutput where
  srcSeqIdxes := [0]
  outTokens := [7]
  outLogprobs := [.zero]

/-- The embedding is written past the end of a segment of the computed size, and the choice
of the beam search is lost. -/
theorem outputs_overrun_and_lost :
    calculateRawForwardOutputSize imageOutput = 52 ∧
      imageOutput.serialized.map List.length = some 61 ∧
      rawOutputWrite (List.replicate 60 0) 1 imageOutput = none ∧
      calculateRawForwardOutputSize beamOutput = 64 ∧
      beamOutput.serialized.map List.length = some 32 ∧
      beamOutput.serialized.bind ofBytes = some {} ∧ beamOutput ≠ {} := by
  decide +kernel

end RawForwardOutput

end Xllm.SharedMemory
