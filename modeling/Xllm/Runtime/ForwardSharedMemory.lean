import Xllm.Runtime.RawForwardInput

/-!
# Sending the input of a forward step

The scheduler process writes a `RawForwardInput` into a shared memory segment, a worker
reads a `ForwardInput` from it. Behind a header with their sizes stand two sections: a
descriptor with counts, numbers, texts and the descriptions of tensors, and an arena with
the elements of tensors, each at a multiple of sixteen bytes. A first pass without memory
measures both sections; the second one writes.

Reads past the end of the segment, and what is undefined otherwise, fail.
-/

namespace Xllm.SharedMemory

open Codec

def kRawInputTensorArenaAlignment : Nat := 16

section Tensors

variable {α : Type}

/-- A tensor with given elements. Torch accepts no size beyond `int64_t`, and the memory
must hold the elements. -/
def tensorOf (shape : List Nat) (dtype : ScalarType) (data : List UInt8) : Tensor :=
  if h : (∀ size ∈ shape, size < 2 ^ 63) ∧ data.length = shape.prod * dtype.elementSize then
    some ⟨shape, dtype, data, h.1, h.2⟩
  else none

theorem shape_of_tensorOf {shape : List Nat} {dtype : ScalarType} {data : List UInt8}
    {t : TensorData} (h : tensorOf shape dtype data = some t) : t.shape = shape := by
  rw [tensorOf] at h
  split at h
  · rw [← Option.some.inj h]
  · cases h

def torchTensor [Element α] (vec : List α) : Tensor :=
  tensorOf [vec.length] (Element.scalarType α) (vectorBytes vec)

def create2dTensor [Element α] (vec : List (List α)) : Option Tensor :=
  match vec with
  | [] => some none
  | row :: rows =>
      if ∀ r ∈ rows, r.length = row.length then
        some (tensorOf [rows.length + 1, row.length] (Element.scalarType α)
          (vectorBytes (row :: rows).flatten))
      else none

/-- A tensor of `SamplingParameters::init` about unique tokens, if it is needed. -/
def uniqueTensor [Element α] (needTokenStats : Bool) (vec : List (List α)) : Option Tensor :=
  if needTokenStats then create2dTensor vec else some none

end Tensors

def SamplingParameters.init (reqSamplingParams : List RequestSamplingParam)
    (selectedTokenIdxes sampleIdxes : List Int32) (uniqueTokenIdsVec : List (List Int64))
    (uniqueTokenCountsVec : List (List Int32)) (uniqueTokenLensVec : List Int32) :
    Option SamplingParameters := do
  -- the size of a tensor is an `int64_t`
  guard (selectedTokenIdxes.length < 2 ^ 63)
  guard (reqSamplingParams.length = selectedTokenIdxes.length)
  guard (sampleIdxes.length ≤ reqSamplingParams.length)
  let penalties := reqSamplingParams.any fun p =>
    !p.frequencyPenalty.isZero || !p.presencePenalty.isZero
  let repetition := reqSamplingParams.any fun p => !p.repetitionPenalty.isOne
  let needTokenStats := penalties || repetition
  guard (needTokenStats → reqSamplingParams.length = uniqueTokenIdsVec.length ∧
    reqSamplingParams.length = uniqueTokenCountsVec.length ∧
    reqSamplingParams.length = uniqueTokenLensVec.length)
  let uniqueTokenIds ← uniqueTensor needTokenStats uniqueTokenIdsVec
  let uniqueTokenCounts ← uniqueTensor needTokenStats uniqueTokenCountsVec
  -- an index outside of the vector is undefined
  let doSample ← sampleIdxes.mapM fun idx =>
    if 0 ≤ idx.toInt then
      reqSamplingParams[idx.toInt.toNat]?.map fun p =>
        p.doSample || !p.temperature.isZero || !p.topP.isOne || 0 < p.topK.toInt
    else none
  return {
    selectedTokenIdxes := torchTensor selectedTokenIdxes
    frequencyPenalties :=
      if penalties then torchTensor (reqSamplingParams.map (·.frequencyPenalty)) else none
    presencePenalties :=
      if penalties then torchTensor (reqSamplingParams.map (·.presencePenalty)) else none
    repetitionPenalties :=
      if repetition then torchTensor (reqSamplingParams.map (·.repetitionPenalty)) else none
    temperatures :=
      if reqSamplingParams.any fun p => !p.temperature.isZero && !p.temperature.isOne then
        torchTensor (reqSamplingParams.map (·.temperature)) else none
    topP := if reqSamplingParams.any fun p => !p.topP.isOne then
      torchTensor (reqSamplingParams.map (·.topP)) else none
    topK := if reqSamplingParams.any fun p => 0 < p.topK.toInt then
      torchTensor (reqSamplingParams.map (·.topK)) else none
    uniqueTokenIds := uniqueTokenIds
    uniqueTokenCounts := uniqueTokenCounts
    uniqueTokenIdsLens := if needTokenStats then torchTensor uniqueTokenLensVec else none
    sampleIdxes := torchTensor sampleIdxes
    doSample := torchTensor doSample
    allRandomSample := doSample.all id
    allGreedySample := !doSample.any id
    logprobs := reqSamplingParams.any (·.logprobs)
    isEmbeddings := reqSamplingParams.any (·.isEmbeddings)
    maxTopLogprobs := reqSamplingParams.foldl
      (fun m p => if m.toInt < p.topLogprobs.toInt then p.topLogprobs else m) 0
    useBeamSearch := reqSamplingParams.any fun p => 0 < p.beamWidth.toInt }

section Write

variable {α : Type}

def writeData [Packed α] (data : α) : Writer := put (Packed.bytes data)

def writeString (str : Text) : Writer := do
  writeData (UInt64.ofNat str.length)
  put str

def writeStringVector (vec : List Text) : Writer := do
  writeData (UInt64.ofNat vec.length)
  vec.forM writeString

def writeVector [Packed α] (vec : List α) : Writer := do
  writeData (UInt64.ofNat vec.length)
  put (vectorBytes vec)

/-- `write_tensor`. A tensor without elements leaves the arena as it is. -/
def writeTensor (tensor : Tensor) : Writer :=
  match tensor with
  | none => writeData (0 : UInt64)
  | some t => do
      writeData (UInt64.ofNat t.shape.length)
      t.shape.forM fun size => writeData (UInt64.ofNat size)
      writeData t.dtype.toInt8
      writeData (UInt64.ofNat (t.shape.prod * t.dtype.elementSize))
      if t.shape.prod * t.dtype.elementSize = 0 then pure ()
      else place kRawInputTensorArenaAlignment t.data

def writeVectorToTensor [Element α] (vec : List α) : Writer :=
  if vec.isEmpty then writeData (0 : UInt64)
  else do
    writeData (1 : UInt64)
    writeData (UInt64.ofNat vec.length)
    writeData (Element.scalarType α).toInt8
    writeData (UInt64.ofNat (vec.length * Packed.size α))
    place kRawInputTensorArenaAlignment (vectorBytes vec)

/-- The bytes that are copied from a row. Those behind its end are not its own. -/
def rowBytes [Packed α] (columns : Nat) (row : List α) : Option (List UInt8) :=
  if columns ≤ row.length then some (vectorBytes (row.take columns)) else none

/-- `write_2d_vector_to_tensor`. Every row is taken to be as long as the first one. -/
def write2dVectorToTensor [Element α] (vec2d : List (List α)) : Writer :=
  match vec2d with
  | [] => writeData (0 : UInt64)
  | row :: rows =>
      if row.isEmpty then writeData (0 : UInt64)
      else do
        writeData (2 : UInt64)
        writeData (UInt64.ofNat (row :: rows).length)
        writeData (UInt64.ofNat row.length)
        writeData (Element.scalarType α).toInt8
        writeData (UInt64.ofNat ((row :: rows).length * (row.length * Packed.size α)))
        let data ← ((row :: rows).mapM (rowBytes row.length) : Option (List (List UInt8)))
        place kRawInputTensorArenaAlignment data.flatten

def writeInstanceInfo (info : InstanceInfo) : Writer := do
  writeString info.name
  writeString info.rpcAddress
  writeString info.type
  writeVector info.clusterIds
  writeStringVector info.addrs
  writeVector info.kCacheIds
  writeVector info.vCacheIds
  writeData info.dpSize
  writeVector info.ttftProfilingData

def writeXtensorLayerOffsets (offsets : List XTensorLayerOffsets) : Writer := do
  writeData (UInt64.ofNat offsets.length)
  offsets.forM fun layer => do
    writeVector layer.kOffsets
    writeVector layer.vOffsets

def writeTransferKvInfo (info : TransferKVInfo) : Writer := do
  writeString info.requestId
  writeVector info.localBlocksIds
  writeVector info.remoteBlocksIds
  writeData info.dpRank
  writeInstanceInfo info.remoteInstanceInfo
  writeXtensorLayerOffsets info.dstXtensorLayerOffsets

def writeEplbInfo (info : EplbInfo) : Writer := do
  writeData info.prepareLayerId
  writeVector info.expertIds
  writeData info.updateLayerId

def writeSwapBlocks (blocks : List BlockTransferInfo) : Writer := do
  writeData (UInt64.ofNat blocks.length)
  blocks.forM fun b => do
    writeData b.srcBlockId
    writeData b.dstBlockId

/-- An entry of `write_mm_dict`. The number of tensors is an `int32_t`. -/
def writeMmEntry (entry : Text × MMValue) : Writer := do
  writeString entry.1
  match entry.2 with
  | .tensor value =>
      writeData (1 : Int32)
      writeTensor value
  | .tensors values =>
      writeData (Int32.ofNat values.length)
      values.forM writeTensor

def writeMmDict (mmDict : MMDict) : Writer := do
  writeData (UInt64.ofNat mmDict.entries.length)
  mmDict.entries.forM writeMmEntry

def writeMmItem (item : MMDataItem) : Writer := do
  writeData item.type
  writeMmDict item.data
  writeData item.tokenOffset
  writeData item.tokenLength
  writeData item.key
  writeData item.cachedTokenNum

/-- `write_mm_data_items`. Another alternative of the variant is thrown at. -/
def writeMmDataItems (mmData : MMData) : Writer :=
  match mmData.items with
  | .dict _ => failure
  | .items mmItems => do
      writeData mmData.type
      writeData (UInt64.ofNat mmItems.length)
      mmItems.forM writeMmItem

def writeMmDataDict (mmData : MMData) : Writer :=
  match mmData.items with
  | .items _ => failure
  | .dict mmDict => do
      writeData mmData.type
      writeMmDict mmDict

def MMData.holdsItems (mmData : MMData) : Bool :=
  match mmData.items with
  | .items _ => true
  | .dict _ => false

/-- `is_mm_item`: the first element decides for all. -/
def isMmItem (vec : List MMData) : Bool :=
  match vec with
  | [] => true
  | mmData :: _ => mmData.holdsItems

def writeMmBatchData (vec : List MMData) : Writer := do
  writeData (UInt64.ofNat vec.length)
  writeData (isMmItem vec)
  vec.forM (if isMmItem vec then writeMmDataItems else writeMmDataDict)

def writeDitGenerationParams (params : DiTGenerationParams) : Writer := do
  writeData params.width
  writeData params.height
  writeData params.numInferenceSteps
  writeData params.trueCfgScale
  writeData params.guidanceScale
  writeData params.numImagesPerPrompt
  writeData params.seed
  writeData params.maxSequenceLength
  writeData params.strength
  writeData params.enableCfgRenorm
  writeData params.cfgRenormMin

def writeDitForwardInput (input : DiTForwardInput) : Writer := do
  writeData input.batchSize
  writeStringVector input.prompts
  writeStringVector input.prompts2
  writeStringVector input.negativePrompts
  writeStringVector input.negativePrompts2
  writeTensor input.images
  writeTensor input.conditionImages
  writeTensor input.maskImages
  writeTensor input.controlImage
  writeTensor input.maskedImageLatents
  writeTensor input.promptEmbeds
  writeTensor input.pooledPromptEmbeds
  writeTensor input.negativePromptEmbeds
  writeTensor input.negativePooledPromptEmbeds
  writeTensor input.latents
  writeDitGenerationParams input.generationParams

/-- The part of `serialize_raw_forward_input_sections` for a `SamplingParameters`. -/
def writeSamplingParameters (params : SamplingParameters) : Writer := do
  writeTensor params.selectedTokenIdxes
  writeTensor params.frequencyPenalties
  writeTensor params.presencePenalties
  writeTensor params.repetitionPenalties
  writeTensor params.temperatures
  writeTensor params.topP
  writeTensor params.topK
  writeTensor params.uniqueTokenIds
  writeTensor params.uniqueTokenCounts
  writeTensor params.uniqueTokenIdsLens
  writeTensor params.sampleIdxes
  writeTensor params.doSample
  writeData params.allRandomSample
  writeData params.allGreedySample
  writeData params.logprobs
  writeData params.isEmbeddings
  writeData params.maxTopLogprobs
  writeData params.useBeamSearch

end Write

def RawForwardInput.initSampling (input : RawForwardInput) : Option SamplingParameters :=
  SamplingParameters.init input.samplingParams input.selectedTokenIdxes input.sampleIdxes
    input.uniqueTokenIdsVec input.uniqueTokenCountsVec input.uniqueTokenLensVec

/-- The sampling part of `serialize_raw_forward_input_sections`. Without selected tokens
there is none. -/
def writeSampling (input : RawForwardInput) : Writer := do
  writeData (UInt64.ofNat input.selectedTokenIdxes.length)
  if input.selectedTokenIdxes.isEmpty then pure ()
  else do
    let samplingParams ← input.initSampling
    writeSamplingParameters samplingParams

def writePositions (input : RawForwardInput) : Writer :=
  if input.flattenPositionsVec.isEmpty then write2dVectorToTensor input.mPositionsVec
  else writeVectorToTensor input.flattenPositionsVec

def serializeRawForwardInputSections (input : RawForwardInput) : Writer := do
  writeVectorToTensor input.flattenTokensVec
  writePositions input
  writeData input.batchForwardType
  writeData input.numSequences
  writeData input.maxSeqLen
  writeData input.qMaxSeqLen
  writeData input.batchId
  writeVectorToTensor input.qSeqLens
  writeVectorToTensor input.seqLens
  writeVectorToTensor input.pagedKvIndptr
  writeVectorToTensor input.pagedKvIndices
  writeVectorToTensor input.pagedKvLastPageLen
  writeVectorToTensor input.newCacheSlotOffsets
  writeVectorToTensor input.kvCacheStartOffsets
  write2dVectorToTensor input.embeddings
  writeVector input.dpGlobalTokenNums
  writeVector input.dpIsDecode
  writeVector input.embeddingIds
  writeStringVector input.requestIds
  writeVector input.extraTokenIds
  writeSwapBlocks input.swapBlocks
  writeVectorToTensor input.srcBlockIndices
  writeVectorToTensor input.dstBlockIndices
  writeVectorToTensor input.cumSum
  writeMmBatchData input.mmData
  writeVectorToTensor input.kvCacheTokensNums
  writeSampling input
  writeVectorToTensor input.accLogprobVec
  writeData (UInt64.ofNat input.transferKvInfos.length)
  input.transferKvInfos.forM writeTransferKvInfo
  writeEplbInfo input.eplbInfo
  writeVectorToTensor input.newTokenSlotIds
  write2dVectorToTensor input.blockTablesVec
  writeDitForwardInput input.ditForwardInput

section Read

variable {α : Type}

def readData [Packed α] : Reader α := unpack

def readString : Reader Text := do
  let len : UInt64 ← readData
  take len.toNat

def readStringVector : Reader (List Text) := do
  let size : UInt64 ← readData
  readMany readString size.toNat

def readVector [Packed α] : Reader (List α) := do
  let size : UInt64 ← readData
  readMany readData size.toNat

structure TensorMeta where
  shape : List Int64 := []
  dtype : Int8 := ScalarType.float.toInt8
  dataBytes : UInt64 := 0

def readTensorMeta : Reader TensorMeta := do
  let ndim : UInt64 ← readData
  if ndim = 0 then return {}
  else do
    let shape : List Int64 ← readMany readData ndim.toNat
    let dtype : Int8 ← readData
    let dataBytes : UInt64 ← readData
    return ⟨shape, dtype, dataBytes⟩

/-- `torch::from_blob` at the cursor of the arena, which then moves behind the block. -/
def fromBlob (info : TensorMeta) : Reader TensorData := do
  guard (info.shape.all fun size => 0 ≤ size.toInt)
  let dtype ← ScalarType.ofInt8 info.dtype
  let shape := info.shape.map fun size => size.toInt.toNat
  let data ← takeBlock kRawInputTensorArenaAlignment (shape.prod * dtype.elementSize)
    info.dataBytes.toNat
  tensorOf shape dtype data

/-- `read_tensor` into a tensor of a new `ForwardInput`. -/
def readTensor : Reader Tensor := do
  let info ← readTensorMeta
  if info.shape = [] then return none
  else some <$> fromBlob info

/-- The first `n` values that are stored in some bytes. What is missing is zero. -/
def elements [Packed α] : Nat → List UInt8 → List α
  | 0, _ => []
  | n + 1, b => Packed.ofBytes (b.take (Packed.size α)) :: elements n (b.drop (Packed.size α))

/-- `read_tensor_and_vector` behind the meta data. -/
def copyTensor [Packed α] (info : TensorMeta) : Reader (Tensor × List α) :=
  match info.shape with
  | [] => return (none, [])
  | size :: _ => do
      let copied ← peekBlock info.dataBytes.toNat
      let tensor ← fromBlob info
      guard (copied.length ≤ size.toInt.toNat * Packed.size α)
      return (some tensor, elements size.toInt.toNat copied)

def readTensorAndVector [Packed α] : Reader (Tensor × List α) := readTensorMeta >>= copyTensor

def readInstanceInfo : Reader InstanceInfo := do
  let name ← readString
  let rpcAddress ← readString
  let type ← readString
  let clusterIds ← readVector
  let addrs ← readStringVector
  let kCacheIds ← readVector
  let vCacheIds ← readVector
  let dpSize ← readData
  let ttftProfilingData ← readVector
  return ⟨name, rpcAddress, type, clusterIds, addrs, kCacheIds, vCacheIds, dpSize,
    ttftProfilingData⟩

def readXtensorLayer : Reader XTensorLayerOffsets := do
  let kOffsets ← readVector
  let vOffsets ← readVector
  return ⟨kOffsets, vOffsets⟩

def readXtensorLayerOffsets : Reader (List XTensorLayerOffsets) := do
  let numLayers : UInt64 ← readData
  readMany readXtensorLayer numLayers.toNat

def readTransferKvInfo : Reader TransferKVInfo := do
  let requestId ← readString
  let localBlocksIds ← readVector
  let remoteBlocksIds ← readVector
  let dpRank ← readData
  let remoteInstanceInfo ← readInstanceInfo
  let dstXtensorLayerOffsets ← readXtensorLayerOffsets
  return ⟨requestId, localBlocksIds, remoteBlocksIds, dpRank, remoteInstanceInfo,
    dstXtensorLayerOffsets⟩

def readEplbInfo : Reader EplbInfo := do
  let prepareLayerId ← readData
  let expertIds ← readVector
  let updateLayerId ← readData
  return ⟨prepareLayerId, expertIds, updateLayerId⟩

def readSwapBlock : Reader BlockTransferInfo := do
  let srcBlockId ← readData
  let dstBlockId ← readData
  return ⟨srcBlockId, dstBlockId⟩

def readSwapBlocks : Reader (List BlockTransferInfo) := do
  let size : UInt64 ← readData
  readMany readSwapBlock size.toNat

/-- An entry of `read_mm_dict`. A negative number of tensors is no size of a vector. -/
def readMmEntry : Reader (Text × MMValue) := do
  let mmKey ← readString
  let tensorNum : Int32 ← readData
  if tensorNum = 1 then do
    let tensor ← readTensor
    return (mmKey, .tensor tensor)
  else do
    guard (0 ≤ tensorNum.toInt)
    let tensors ← readMany readTensor tensorNum.toInt.toNat
    return (mmKey, .tensors tensors)

namespace MMDict

def empty : MMDict := ⟨[], List.nodup_nil⟩

/-- `mm_dict[key] = value`. -/
def assign (dict : MMDict) (entry : Text × MMValue) : MMDict where
  entries := dict.entries.filter (fun e => e.1 ≠ entry.1) ++ [entry]
  distinct := by
    rw [List.map_append, List.map_singleton, List.nodup_append]
    refine ⟨dict.distinct.sublist (List.filter_sublist.map _), by simp, ?_⟩
    intro key hkey other hother
    obtain ⟨e, he, rfl⟩ := List.mem_map.1 hkey
    rw [List.mem_singleton.1 hother]
    simpa using (List.mem_filter.1 he).2

end MMDict

def readMmDict : Reader MMDict := do
  let size : UInt64 ← readData
  let entries ← readMany readMmEntry size.toNat
  return entries.foldl MMDict.assign .empty

def readMmItem : Reader MMDataItem := do
  let type ← readData
  let data ← readMmDict
  let tokenOffset ← readData
  let tokenLength ← readData
  let key ← readData
  let cachedTokenNum ← readData
  return ⟨type, data, tokenOffset, tokenLength, key, cachedTokenNum⟩

def readMmDataItems : Reader MMData := do
  let type ← readData
  let mmItemsNum : UInt64 ← readData
  let mmItems ← readMany readMmItem mmItemsNum.toNat
  return ⟨type, .items mmItems⟩

def readMmDataDict : Reader MMData := do
  let type ← readData
  let mmDict ← readMmDict
  return ⟨type, .dict mmDict⟩

def readMmBatchData : Reader (List MMData) := do
  let mmDataNum : UInt64 ← readData
  let isMmItem : Bool ← readData
  readMany (if isMmItem then readMmDataItems else readMmDataDict) mmDataNum.toNat

def readDitGenerationParams : Reader DiTGenerationParams := do
  let width ← readData
  let height ← readData
  let numInferenceSteps ← readData
  let trueCfgScale ← readData
  let guidanceScale ← readData
  let numImagesPerPrompt ← readData
  let seed ← readData
  let maxSequenceLength ← readData
  let strength ← readData
  let enableCfgRenorm ← readData
  let cfgRenormMin ← readData
  return ⟨width, height, numInferenceSteps, trueCfgScale, guidanceScale, numImagesPerPrompt,
    seed, maxSequenceLength, strength, enableCfgRenorm, cfgRenormMin⟩

def readDitForwardInput : Reader DiTForwardInput := do
  let batchSize ← readData
  let prompts ← readStringVector
  let prompts2 ← readStringVector
  let negativePrompts ← readStringVector
  let negativePrompts2 ← readStringVector
  let images ← readTensor
  let conditionImages ← readTensor
  let maskImages ← readTensor
  let controlImage ← readTensor
  let maskedImageLatents ← readTensor
  let promptEmbeds ← readTensor
  let pooledPromptEmbeds ← readTensor
  let negativePromptEmbeds ← readTensor
  let negativePooledPromptEmbeds ← readTensor
  let latents ← readTensor
  let generationParams ← readDitGenerationParams
  return ⟨batchSize, prompts, prompts2, negativePrompts, negativePrompts2, images,
    conditionImages, maskImages, controlImage, maskedImageLatents, promptEmbeds,
    pooledPromptEmbeds, negativePromptEmbeds, negativePooledPromptEmbeds, latents,
    generationParams⟩

def readSamplingParameters : Reader SamplingParameters := do
  let selectedTokenIdxes ← readTensor
  let frequencyPenalties ← readTensor
  let presencePenalties ← readTensor
  let repetitionPenalties ← readTensor
  let temperatures ← readTensor
  let topP ← readTensor
  let topK ← readTensor
  let uniqueTokenIds ← readTensor
  let uniqueTokenCounts ← readTensor
  let uniqueTokenIdsLens ← readTensor
  let sampleIdxes ← readTensor
  let doSample ← readTensor
  let allRandomSample ← readData
  let allGreedySample ← readData
  let logprobs ← readData
  let isEmbeddings ← readData
  let maxTopLogprobs ← readData
  let useBeamSearch ← readData
  return ⟨selectedTokenIdxes, frequencyPenalties, presencePenalties, repetitionPenalties,
    temperatures, topP, topK, uniqueTokenIds, uniqueTokenCounts, uniqueTokenIdsLens, sampleIdxes,
    doSample, allRandomSample, allGreedySample, logprobs, isEmbeddings, maxTopLogprobs,
    useBeamSearch⟩

/-- The sampling part of `deserialize_raw_forward_input`. -/
def readSampling : Reader SamplingParameters := do
  let selectedTokenIdxesSize : UInt64 ← readData
  if selectedTokenIdxesSize = 0 then return {}
  else readSamplingParameters

def partialSum (sum : Int32) : List Int32 → List Int32
  | [] => []
  | x :: xs => (sum + x) :: partialSum (sum + x) xs

/-- `q_cu_seq_lens`, which is computed from what was read. -/
def cuSeqLens (vec : List Int32) : Tensor :=
  if vec.isEmpty then none else torchTensor (partialSum 0 vec)

def readForwardInputSections : Reader ForwardInput := do
  let tokenIds ← readTensor
  let positions ← readTensor
  let batchForwardType ← readData
  let numSequences ← readData
  let kvMaxSeqLen ← readData
  let qMaxSeqLen ← readData
  let batchId ← readData
  let qSeqLens ← readTensorAndVector
  let kvSeqLens ← readTensorAndVector
  let pagedKvIndptr ← readTensor
  let pagedKvIndices ← readTensor
  let pagedKvLastPageLen ← readTensor
  let newCacheSlotOffsets ← readTensor
  let kvCacheStartOffsets ← readTensor
  let inputEmbedding ← readTensor
  let dpGlobalTokenNums ← readVector
  let dpIsDecode ← readVector
  let embeddingIds ← readVector
  let requestIds ← readStringVector
  let extraTokenIds ← readVector
  let swapBlocks ← readSwapBlocks
  let srcBlockIndices ← readTensor
  let dstBlockIndices ← readTensor
  let cumSum ← readTensor
  let mmData ← readMmBatchData
  let kvCacheTokensNums ← readTensorAndVector
  let samplingParams ← readSampling
  let accLogprob ← readTensor
  let transferCount : UInt64 ← readData
  let transferKvInfos ← readMany readTransferKvInfo transferCount.toNat
  let eplbInfo ← readEplbInfo
  let newCacheSlots ← readTensor
  let blockTables ← readTensor
  let ditForwardInput ← readDitForwardInput
  return {
    tokenIds := tokenIds
    positions := positions
    inputParams := {
      batchForwardType := batchForwardType
      numSequences := numSequences
      kvMaxSeqLen := kvMaxSeqLen
      qMaxSeqLen := qMaxSeqLen
      batchId := batchId
      qSeqLens := qSeqLens.1
      qSeqLensVec := qSeqLens.2
      qCuSeqLens := cuSeqLens qSeqLens.2
      kvSeqLens := kvSeqLens.1
      kvSeqLensVec := kvSeqLens.2
      pagedKvIndptr := pagedKvIndptr
      pagedKvIndices := pagedKvIndices
      pagedKvLastPageLen := pagedKvLastPageLen
      newCacheSlotOffsets := newCacheSlotOffsets
      kvCacheStartOffsets := kvCacheStartOffsets
      inputEmbedding := inputEmbedding
      dpGlobalTokenNums := dpGlobalTokenNums
      dpIsDecode := dpIsDecode
      embeddingIds := embeddingIds
      requestIds := requestIds
      extraTokenIds := extraTokenIds
      swapBlocks := swapBlocks
      srcBlockIndices := srcBlockIndices
      dstBlockIndices := dstBlockIndices
      cumSum := cumSum
      mmData := mmData
      kvCacheTokensNums := kvCacheTokensNums.1
      kvCacheTokensNumsHost := kvCacheTokensNums.2
      newCacheSlots := newCacheSlots
      blockTables := blockTables
      ditForwardInput := ditForwardInput }
    samplingParams := samplingParams
    accLogprob := accLogprob
    transferKvInfos := transferKvInfos
    eplbInfo := eplbInfo }

end Read

structure RawInputLayoutHeader where
  descriptorBytes : Nat
  tensorArenaBytes : Nat

def layoutHeaderSize : Nat := 16

def controlMetadataSize : Nat := 8

def calculateRawForwardInputLayout (input : RawForwardInput) : Option RawInputLayoutHeader := do
  let (_, o) ← serializeRawForwardInputSections input
    { descriptor := .counting, arena := .counting }
  return ⟨o.descriptor.size, o.arena.size⟩

def getRawForwardInputLayoutSize (layout : RawInputLayoutHeader) : Nat :=
  layoutHeaderSize + layout.descriptorBytes + layout.tensorArenaBytes

/-- What `serialize_raw_forward_input` leaves in its buffer, and where in the arena tensors
were put. A section that is not of the size of the layout fails a check. -/
def serializeRawForwardInput (input : RawForwardInput) (layout : RawInputLayoutHeader) :
    Option (List UInt8 × List Nat) := do
  let (_, o) ← serializeRawForwardInputSections input { descriptor := .empty, arena := .empty }
  guard (o.descriptor.size = layout.descriptorBytes)
  guard (o.arena.size = layout.tensorArenaBytes)
  let descriptor ← o.descriptor.bytes
  let arena ← o.arena.bytes
  return (Packed.bytes (UInt64.ofNat layout.descriptorBytes) ++
    (Packed.bytes (UInt64.ofNat layout.tensorArenaBytes) ++ (descriptor ++ arena)), o.placed)

def totalSize (layout : RawInputLayoutHeader) : Nat :=
  controlMetadataSize + (Packed.size UInt64 + getRawForwardInputLayoutSize layout)

/-- `raw_input_write`: whether the input was written, and the segment afterwards. The
check at the end compares what was announced with what was written. -/
def rawInputWrite (segment : List UInt8) (version : UInt64) (input : RawForwardInput) :
    Option (Bool × List UInt8) := do
  let layout ← calculateRawForwardInputLayout input
  if segment.length < totalSize layout then return (false, segment)
  else do
    let (payload, _) ← serializeRawForwardInput input layout
    let written := Packed.bytes version ++
      (Packed.bytes (UInt64.ofNat (getRawForwardInputLayoutSize layout)) ++ payload)
    guard (totalSize layout = written.length)
    return (true, written ++ segment.drop written.length)

/-- `deserialize_raw_forward_input` without a device session: the input, and the two
cursors at the end. -/
def deserializeRawForwardInput (memory : List UInt8) (buffer : Nat) (bufferSize : UInt64) :
    Option (ForwardInput × Codec.Input) := do
  let (header, i) ← (do
    let descriptorBytes : UInt64 ← readData
    let tensorArenaBytes : UInt64 ← readData
    return (descriptorBytes, tensorArenaBytes) : Reader (UInt64 × UInt64))
      { memory := memory, descriptor := buffer, arena := buffer }
  guard (UInt64.ofNat layoutHeaderSize ≤ bufferSize)
  guard (header.1 + header.2 ≤ bufferSize - UInt64.ofNat layoutHeaderSize)
  readForwardInputSections { i with arena := i.descriptor + header.1.toNat }

/-- `raw_input_read`, once a new version is there. -/
def rawInputRead (segment : List UInt8) : Option (ForwardInput × Codec.Input) := do
  let (totalSize, i) ← (readData : Reader UInt64)
    { memory := segment, descriptor := controlMetadataSize, arena := 0 }
  deserializeRawForwardInput segment i.descriptor totalSize

end Xllm.SharedMemory
