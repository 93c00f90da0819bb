import Xllm.Lib.Codec
import Xllm.Util.HashUtil

/-!
# The input of a forward step

`RawForwardInput` is what the scheduler process sends to a worker, `ForwardInput` what the
worker has after reading it. A tensor is undefined or has a shape, a type and the bytes of
its elements. Floats are kept as their bits: nothing here computes with them.
-/

namespace Xllm.SharedMemory

structure FloatBits where
  bits : UInt32
  deriving DecidableEq

structure DoubleBits where
  bits : UInt64
  deriving DecidableEq

namespace FloatBits

/-- `x == 0.0`; there are two zeros. -/
def isZero (x : FloatBits) : Bool := x.bits = 0 ∨ x.bits = 0x80000000

def isOne (x : FloatBits) : Bool := x.bits = 0x3f800000

def zero : FloatBits := ⟨0⟩

def one : FloatBits := ⟨0x3f800000⟩

end FloatBits

abbrev Text := List UInt8

/-- The element sizes of the scalar types of Torch, in the order of their numbers. -/
def elementSizes : List Nat :=
  [1, 1, 2, 4, 8, 2, 4, 8, 4, 8, 16, 1, 1, 1, 4, 2, 1, 1, 1, 1, 1, 1, 2, 1, 1, 1, 1, 2, 4, 8] ++
    List.replicate 16 1

structure ScalarType where
  code : Fin 46
  deriving DecidableEq

namespace ScalarType

def elementSize (t : ScalarType) : Nat := elementSizes.getD t.code 0

def int : ScalarType := ⟨3⟩

def long : ScalarType := ⟨4⟩

def float : ScalarType := ⟨6⟩

def bool : ScalarType := ⟨11⟩

def toInt8 (t : ScalarType) : Int8 := Int8.ofNat t.code

/-- `static_cast<torch::ScalarType>`, for a number of a scalar type. -/
def ofInt8 (c : Int8) : Option ScalarType :=
  if h : c.toInt.toNat < 46 ∧ 0 ≤ c.toInt then some ⟨⟨c.toInt.toNat, h.1⟩⟩ else none

@[simp] theorem ofInt8_toInt8 (t : ScalarType) : ofInt8 t.toInt8 = some t := by
  obtain ⟨code⟩ := t
  revert code
  decide

end ScalarType

/-- A defined tensor. Its elements are in memory in the order of their indices. -/
structure TensorData where
  shape : List Nat
  dtype : ScalarType
  data : List UInt8
  /-- Sizes are of type `int64_t`. -/
  sizes_lt : ∀ size ∈ shape, size < 2 ^ 63
  length_data : data.length = shape.prod * dtype.elementSize
  deriving DecidableEq

abbrev Tensor := Option TensorData

/-- The element types of vectors that become tensors. -/
class Element (α : Type) extends Codec.Packed α where
  scalarType : ScalarType
  elementSize_eq : scalarType.elementSize = size

open Codec (Packed)

instance : Element Int32 where
  scalarType := .int
  elementSize_eq := rfl

instance : Element Int64 where
  scalarType := .long
  elementSize_eq := rfl

instance : Packed FloatBits where
  size := 4
  bytes x := Packed.bytes x.bits
  ofBytes b := ⟨Packed.ofBytes b⟩
  size_pos := Nat.succ_pos _
  length_bytes x := Packed.length_bytes x.bits
  ofBytes_bytes x := by rw [Packed.ofBytes_bytes]

instance : Element FloatBits where
  scalarType := .float
  elementSize_eq := rfl

instance : Packed DoubleBits where
  size := 8
  bytes x := Packed.bytes x.bits
  ofBytes b := ⟨Packed.ofBytes b⟩
  size_pos := Nat.succ_pos _
  length_bytes x := Packed.length_bytes x.bits
  ofBytes_bytes x := by rw [Packed.ofBytes_bytes]

instance : Element Bool where
  scalarType := .bool
  elementSize_eq := rfl

/-- `std::pair<int32_t, double>`: four bytes of filling behind the first component. -/
instance : Packed (Int32 × DoubleBits) where
  size := 16
  bytes x := Packed.bytes x.1 ++ (List.replicate 4 0 ++ Packed.bytes x.2)
  ofBytes b := (Packed.ofBytes (b.take 4), Packed.ofBytes (b.drop 8))
  size_pos := by decide
  length_bytes x := by
    rw [List.length_append, List.length_append, Packed.length_bytes, Packed.length_bytes]
    rfl
  ofBytes_bytes x := by
    have hfirst : (Packed.bytes x.1).length = 4 := Packed.length_bytes x.1
    have hdrop : (8 : Nat) = (Packed.bytes x.1).length + 4 := by rw [hfirst]
    rw [List.take_left' hfirst, hdrop, ← List.drop_drop, List.drop_left,
      List.drop_left' (List.length_replicate ..), Packed.ofBytes_bytes, Packed.ofBytes_bytes]

instance : Packed XXH3Key where
  size := 16
  bytes x := x.data.toList
  ofBytes b := ⟨Vector.ofFn fun i => b.getD i 0⟩
  size_pos := by decide
  length_bytes x := by simp
  ofBytes_bytes x := by
    obtain ⟨data⟩ := x
    congr 1
    ext i hi
    simp

def vectorBytes {α : Type} [Packed α] (vec : List α) : List UInt8 := vec.flatMap Packed.bytes

@[simp] theorem length_vectorBytes {α : Type} [Packed α] (vec : List α) :
    (vectorBytes vec).length = vec.length * Packed.size α := by
  induction vec with
  | nil => simp [vectorBytes]
  | cons x vec ih =>
      rw [vectorBytes, List.flatMap_cons, List.length_append, Packed.length_bytes,
        List.length_cons, Nat.succ_mul, Nat.add_comm]
      exact congrArg (· + _) ih

structure RequestSamplingParam where
  frequencyPenalty : FloatBits := .zero
  presencePenalty : FloatBits := .zero
  repetitionPenalty : FloatBits := .one
  temperature : FloatBits := .zero
  topP : FloatBits := .one
  topK : Int64 := -1
  logprobs : Bool := false
  topLogprobs : Int64 := 0
  doSample : Bool := false
  isEmbeddings : Bool := false
  beamWidth : Int32 := 0

structure SamplingParameters where
  selectedTokenIdxes : Tensor := none
  frequencyPenalties : Tensor := none
  presencePenalties : Tensor := none
  repetitionPenalties : Tensor := none
  temperatures : Tensor := none
  topP : Tensor := none
  topK : Tensor := none
  uniqueTokenIds : Tensor := none
  uniqueTokenCounts : Tensor := none
  uniqueTokenIdsLens : Tensor := none
  sampleIdxes : Tensor := none
  doSample : Tensor := none
  allRandomSample : Bool := false
  allGreedySample : Bool := true
  logprobs : Bool := false
  isEmbeddings : Bool := false
  maxTopLogprobs : Int64 := 0
  useBeamSearch : Bool := false
  deriving DecidableEq

/-- `InstanceInfo`, as far as it is sent. -/
structure InstanceInfo where
  name : Text := []
  rpcAddress : Text := []
  type : Text := []
  clusterIds : List UInt64 := []
  addrs : List Text := []
  kCacheIds : List Int64 := []
  vCacheIds : List Int64 := []
  dpSize : Int32 := 0
  ttftProfilingData : List (Int32 × DoubleBits) := []
  deriving DecidableEq

structure XTensorLayerOffsets where
  kOffsets : List UInt64
  vOffsets : List UInt64
  deriving DecidableEq

structure TransferKVInfo where
  requestId : Text
  localBlocksIds : List UInt64
  remoteBlocksIds : List UInt64
  dpRank : Int32
  remoteInstanceInfo : InstanceInfo
  dstXtensorLayerOffsets : List XTensorLayerOffsets
  deriving DecidableEq

structure EplbInfo where
  prepareLayerId : Int32 := -1
  expertIds : List Int32 := []
  updateLayerId : Int32 := -1
  deriving DecidableEq

structure BlockTransferInfo where
  srcBlockId : Int32
  dstBlockId : Int32
  deriving DecidableEq

inductive MMValue where
  | tensor (value : Tensor)
  | tensors (values : List Tensor)

/-- `MMDict`: an `std::unordered_map`, as its entries in the order of iteration. -/
@[ext]
structure MMDict where
  entries : List (Text × MMValue)
  distinct : (entries.map Prod.fst).Nodup

/-- `MMDataItem`, as far as it is sent. -/
structure MMDataItem where
  type : UInt32
  data : MMDict
  tokenOffset : UInt32
  tokenLength : UInt32
  key : XXH3Key
  cachedTokenNum : UInt32

inductive MMItems where
  | items (items : List MMDataItem)
  | dict (items : MMDict)

structure MMData where
  type : UInt32
  items : MMItems

structure DiTGenerationParams where
  width : Int32 := 512
  height : Int32 := 512
  numInferenceSteps : Int32 := 28
  trueCfgScale : FloatBits := .one
  guidanceScale : FloatBits := ⟨0x40600000⟩
  numImagesPerPrompt : UInt32 := 1
  seed : Int64 := 0
  maxSequenceLength : Int32 := 512
  strength : FloatBits := .one
  enableCfgRenorm : Bool := true
  cfgRenormMin : FloatBits := .zero

structure DiTForwardInput where
  batchSize : Int32 := 0
  prompts : List Text := []
  prompts2 : List Text := []
  negativePrompts : List Text := []
  negativePrompts2 : List Text := []
  images : Tensor := none
  conditionImages : Tensor := none
  maskImages : Tensor := none
  controlImage : Tensor := none
  maskedImageLatents : Tensor := none
  promptEmbeds : Tensor := none
  pooledPromptEmbeds : Tensor := none
  negativePromptEmbeds : Tensor := none
  negativePooledPromptEmbeds : Tensor := none
  latents : Tensor := none
  generationParams : DiTGenerationParams := {}

/-- `RawForwardInput`. `mm_data` is the vector of `MMBatchData::batch`, from which the
batch's own dictionary is computed again after reading. -/
structure RawForwardInput where
  flattenTokensVec : List Int32 := []
  flattenPositionsVec : List Int32 := []
  mPositionsVec : List (List Int32) := []
  samplingParams : List RequestSamplingParam := []
  selectedTokenIdxes : List Int32 := []
  sampleIdxes : List Int32 := []
  uniqueTokenIdsVec : List (List Int64) := []
  uniqueTokenCountsVec : List (List Int32) := []
  uniqueTokenLensVec : List Int32 := []
  batchForwardType : Int32 := 4
  maxSeqLen : UInt32 := 0
  qMaxSeqLen : UInt32 := 0
  seqLens : List Int32 := []
  qSeqLens : List Int32 := []
  kvCacheTokensNums : List Int32 := []
  newTokenSlotIds : List Int32 := []
  blockTablesVec : List (List Int32) := []
  numSequences : Int32 := 0
  dpGlobalTokenNums : List Int32 := []
  dpIsDecode : List Int32 := []
  transferKvInfos : List TransferKVInfo := []
  eplbInfo : EplbInfo := {}
  embeddings : List (List FloatBits) := []
  extraTokenIds : List Int32 := []
  embeddingIds : List Int32 := []
  requestIds : List Text := []
  swapBlocks : List BlockTransferInfo := []
  batchId : UInt64 := 0
  srcBlockIndices : List Int32 := []
  dstBlockIndices : List Int32 := []
  cumSum : List Int32 := []
  newCacheSlotOffsets : List Int64 := []
  kvCacheStartOffsets : List Int64 := []
  accLogprobVec : List FloatBits := []
  pagedKvIndptr : List Int32 := []
  pagedKvIndices : List Int32 := []
  pagedKvLastPageLen : List Int32 := []
  mmData : List MMData := []
  ditForwardInput : DiTForwardInput := {}

structure ModelInputParams where
  batchForwardType : Int32 := 4
  numSequences : Int32 := 0
  kvMaxSeqLen : Int32 := 0
  qMaxSeqLen : Int32 := 0
  batchId : UInt64 := 0
  qSeqLens : Tensor := none
  qSeqLensVec : List Int32 := []
  qCuSeqLens : Tensor := none
  kvSeqLens : Tensor := none
  kvSeqLensVec : List Int32 := []
  pagedKvIndptr : Tensor := none
  pagedKvIndices : Tensor := none
  pagedKvLastPageLen : Tensor := none
  newCacheSlotOffsets : Tensor := none
  kvCacheStartOffsets : Tensor := none
  inputEmbedding : Tensor := none
  dpGlobalTokenNums : List Int32 := []
  dpIsDecode : List Int32 := []
  embeddingIds : List Int32 := []
  requestIds : List Text := []
  extraTokenIds : List Int32 := []
  swapBlocks : List BlockTransferInfo := []
  srcBlockIndices : Tensor := none
  dstBlockIndices : Tensor := none
  cumSum : Tensor := none
  mmData : List MMData := []
  kvCacheTokensNums : Tensor := none
  kvCacheTokensNumsHost : List Int32 := []
  newCacheSlots : Tensor := none
  blockTables : Tensor := none
  ditForwardInput : DiTForwardInput := {}

structure ForwardInput where
  tokenIds : Tensor := none
  positions : Tensor := none
  inputParams : ModelInputParams := {}
  samplingParams : SamplingParameters := {}
  accLogprob : Tensor := none
  transferKvInfos : List TransferKVInfo := []
  eplbInfo : EplbInfo := {}

end Xllm.SharedMemory
