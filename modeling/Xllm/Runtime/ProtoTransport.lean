import Xllm.Runtime.ForwardRoundTrip

/-!
# Two transports for the input of a forward step

`state_to_raw_forward_input` makes a `RawForwardInput` of what the batch builder has
collected. A worker gets it through the shared memory segment or, without one, through a
protobuf message: `forward_input_to_proto` and `proto_to_forward_input`. The message keeps
what is set and nothing else.

The message has no rows of positions and no profiling data, and the number of sequences is
taken from the block tables. Multimodal data, embeddings and the input of DiT models have
messages of their own and are not compared here.
-/

namespace Xllm.SharedMemory

open Codec List

section Padding

variable {α : Type} {vec2d : List (List α)}

def pad2dVector (padValue : α) (vec2d : List (List α)) : List (List α) :=
  let maxColSize := (vec2d.map List.length).foldl max 0
  vec2d.map fun row => row ++ replicate (maxColSize - row.length) padValue

theorem le_foldl_max (lengths : List Nat) (m : Nat) :
    m ≤ lengths.foldl max m ∧ ∀ n ∈ lengths, n ≤ lengths.foldl max m := by
  induction lengths generalizing m with
  | nil => exact ⟨le_refl _, forall_mem_nil _⟩
  | cons n lengths ih =>
      obtain ⟨hinit, hrest⟩ := ih (max m n)
      rw [foldl_cons]
      refine ⟨(Nat.le_max_left m n).trans hinit, List.forall_mem_cons.2 ⟨?_, hrest⟩⟩
      exact (Nat.le_max_right m n).trans hinit

theorem foldl_max_le {lengths : List Nat} {m bound : Nat} (hm : m ≤ bound)
    (h : ∀ n ∈ lengths, n ≤ bound) : lengths.foldl max m ≤ bound := by
  induction lengths generalizing m with
  | nil => exact hm
  | cons n lengths ih =>
      obtain ⟨hn, hrest⟩ := List.forall_mem_cons.1 h
      exact ih (Nat.max_le.2 ⟨hm, hn⟩) hrest

theorem length_of_mem_pad2dVector {padValue : α} {row : List α}
    (h : row ∈ pad2dVector padValue vec2d) :
    row.length = (vec2d.map List.length).foldl max 0 := by
  obtain ⟨row', hrow', rfl⟩ := List.mem_map.1 h
  have hle := (le_foldl_max (vec2d.map List.length) 0).2 _ (mem_map_of_mem hrow')
  rw [length_append, length_replicate]
  omega

theorem rectangular_pad2dVector (padValue : α) (vec2d : List (List α)) :
    Rectangular (pad2dVector padValue vec2d) := by
  intro row hrow
  cases hrows : pad2dVector padValue vec2d with
  | nil =>
      rw [hrows] at hrow
      cases hrow
  | cons first rows =>
      have hfirst : first ∈ pad2dVector padValue vec2d := hrows ▸ mem_cons_self
      rw [headD_cons, length_of_mem_pad2dVector hrow, length_of_mem_pad2dVector hfirst]

theorem pad2dVector_of_rectangular (padValue : α) (h : Rectangular vec2d) :
    pad2dVector padValue vec2d = vec2d := by
  have hmax : (vec2d.map List.length).foldl max 0 ≤ (vec2d.headD []).length := by
    refine foldl_max_le (Nat.zero_le _) ?_
    intro n hn
    obtain ⟨row, hrow, rfl⟩ := List.mem_map.1 hn
    exact (h row hrow).le
  refine (map_congr_left fun row hrow => ?_).trans (map_id _)
  have hlength := h row hrow
  rw [show (vec2d.map List.length).foldl max 0 - row.length = 0 by omega, replicate_zero,
    append_nil, id]

end Padding

/-- `BuilderState`. The positions of a model with several of them for a token are the
columns of their tensors. A selected token has its sampling parameters. -/
structure BuilderState where
  flattenTokensVec : List Int32 := []
  flattenPositionsVec : List Int32 := []
  mropePositionsVec : List (List (Int32 × Int32 × Int32)) := []
  samplingParams : List RequestSamplingParam := []
  selectedTokenIdxes : List Int32 := []
  sampleIdxes : List Int32 := []
  uniqueTokenIdsVec : List (List Int64) := []
  uniqueTokenCountsVec : List (List Int32) := []
  uniqueTokenLensVec : List Int32 := []
  batchForwardType : Int32 := 4
  maxSeqLen : UInt32 := 0
  qMaxSeqLen : UInt32 := 0
  kvCacheTokensNums : List Int32 := []
  seqLens : List Int32 := []
  qSeqLens : List Int32 := []
  newTokenSlotIds : List Int32 := []
  blockTablesVec : List (List Int32) := []
  accLogprobVec : List FloatBits := []
  embeddingIds : List Int32 := []
  requestIds : List Text := []
  extraTokenIds : List Int32 := []
  transferKvInfos : List TransferKVInfo := []
  pagedKvIndptr : List Int32 := []
  pagedKvIndices : List Int32 := []
  pagedKvLastPageLen : List Int32 := []
  length_samplingParams : samplingParams.length = selectedTokenIdxes.length := by rfl

/-- What `process_swap_block_infos` leaves in an input. -/
structure SwapBlockInfos where
  swapBlocks : List BlockTransferInfo := []
  srcBlockIndices : List Int32 := []
  dstBlockIndices : List Int32 := []
  cumSum : List Int32 := []

structure BatchInputBuilder where
  state : BuilderState
  numSequences : Nat
  useMrope : Bool := false
  mmDataVec : List MMData := []
  swapBlockInfos : SwapBlockInfos := {}
  batchId : UInt64 := 0

/-- A row of `padding_decode_batch_size`. Lengths are cumulative on some platforms. -/
def BuilderState.addPaddingRow (state : BuilderState) (useMrope cumulative : Bool)
    (numDecodingTokens : Nat) : BuilderState :=
  let zeros : List Int32 := replicate numDecodingTokens 0
  let tokens := Int32.ofNat numDecodingTokens
  let length (lens : List Int32) :=
    if cumulative then lens ++ [lens.getLastD 0 + tokens] else lens ++ [tokens]
  { state with
    flattenTokensVec := state.flattenTokensVec ++ zeros
    flattenPositionsVec :=
      if useMrope then state.flattenPositionsVec else state.flattenPositionsVec ++ zeros
    mropePositionsVec := if useMrope then
      state.mropePositionsVec ++ replicate numDecodingTokens [(0, 0, 0)]
      else state.mropePositionsVec
    newTokenSlotIds := state.newTokenSlotIds ++ zeros
    seqLens := length state.seqLens
    qSeqLens := length state.qSeqLens
    blockTablesVec := state.blockTablesVec ++ [[]]
    pagedKvIndices := state.pagedKvIndices ++ [0]
    pagedKvIndptr := state.pagedKvIndptr ++ [state.pagedKvIndptr.getLastD 0 + 1]
    pagedKvLastPageLen := state.pagedKvLastPageLen ++ [1] }

def prefillType : Int32 := 0

def BatchInputBuilder.paddingDecodeBatchSize (builder : BatchInputBuilder) (cumulative : Bool)
    (numDecodingTokens minDecodingBatchSize : Nat) : BatchInputBuilder :=
  let state := builder.state
  if builder.numSequences < minDecodingBatchSize ∧ state.batchForwardType ≠ prefillType ∧
      state.qMaxSeqLen.toNat = numDecodingTokens ∧
      state.flattenTokensVec.length = builder.numSequences * numDecodingTokens then
    { builder with
      state := (List.range (minDecodingBatchSize - builder.numSequences)).foldl
        (fun state _ => state.addPaddingRow builder.useMrope cumulative numDecodingTokens) state }
  else builder

/-- The rows of `torch::cat` over the tensors of positions. -/
def positionRows (mropePositionsVec : List (List (Int32 × Int32 × Int32))) : List (List Int32) :=
  let columns := mropePositionsVec.flatten
  [columns.map (·.1), columns.map (·.2.1), columns.map (·.2.2)]

/-- `state_to_raw_forward_input`. Torch refuses to put no tensors together. -/
def BatchInputBuilder.stateToRawForwardInput (builder : BatchInputBuilder) :
    Option RawForwardInput :=
  let state := builder.state
  if state.flattenTokensVec.isEmpty then some {}
  else if builder.useMrope ∧ state.mropePositionsVec = [] then none
  else some {
    flattenTokensVec := state.flattenTokensVec
    flattenPositionsVec := if builder.useMrope then [] else state.flattenPositionsVec
    mPositionsVec := if builder.useMrope then positionRows state.mropePositionsVec else []
    samplingParams := state.samplingParams
    selectedTokenIdxes := state.selectedTokenIdxes
    sampleIdxes := state.sampleIdxes
    uniqueTokenIdsVec := pad2dVector 0 state.uniqueTokenIdsVec
    uniqueTokenCountsVec := pad2dVector 0 state.uniqueTokenCountsVec
    uniqueTokenLensVec := state.uniqueTokenLensVec
    batchForwardType := state.batchForwardType
    maxSeqLen := state.maxSeqLen
    qMaxSeqLen := state.qMaxSeqLen
    seqLens := state.seqLens
    qSeqLens := state.qSeqLens
    kvCacheTokensNums := state.kvCacheTokensNums
    newTokenSlotIds := state.newTokenSlotIds
    blockTablesVec := pad2dVector 0 state.blockTablesVec
    numSequences := Int32.ofNat builder.numSequences
    transferKvInfos := state.transferKvInfos
    pagedKvIndptr := state.pagedKvIndptr
    pagedKvIndices := state.pagedKvIndices
    pagedKvLastPageLen := state.pagedKvLastPageLen
    embeddingIds := state.embeddingIds
    requestIds := state.requestIds
    extraTokenIds := state.extraTokenIds
    accLogprobVec := state.accLogprobVec
    mmData := builder.mmDataVec
    swapBlocks := builder.swapBlockInfos.swapBlocks
    srcBlockIndices := builder.swapBlockInfos.srcBlockIndices
    dstBlockIndices := builder.swapBlockInfos.dstBlockIndices
    cumSum := builder.swapBlockInfos.cumSum
    batchId := builder.batchId }

/-- What the message keeps of an `InstanceInfo`. -/
structure ProtoInstanceInfo where
  name : Text
  rpcAddress : Text
  type : Text
  clusterIds : List UInt64
  addrs : List Text
  kCacheIds : List Int64
  vCacheIds : List Int64
  dpSize : Int32

structure ProtoTransferKVInfo where
  requestId : Text
  localBlocksIds : List UInt64
  remoteBlocksIds : List UInt64
  dpRank : Int32
  remoteInstanceInfo : ProtoInstanceInfo
  dstXtensorLayerOffsets : List XTensorLayerOffsets

structure ProtoForwardInput where
  flattenTokensVec : List Int32
  flattenPositionsVec : List Int32
  accLogprobVec : List FloatBits
  samplingParams : List RequestSamplingParam
  selectedTokenIdxes : List Int32
  sampleIdxes : List Int32
  uniqueTokenIdsVec : List (List Int64)
  uniqueTokenCountsVec : List (List Int32)
  uniqueTokenLensVec : List Int32
  batchForwardType : Int32
  maxSeqLen : UInt32
  qMaxSeqLen : UInt32
  seqLens : List Int32
  kvCacheTokensNums : List Int32
  qSeqLens : List Int32
  pagedKvIndptr : List Int32
  pagedKvIndices : List Int32
  pagedKvLastPageLen : List Int32
  newTokenSlotIds : List Int32
  blockTablesVec : List (List Int32)
  numSequences : Int32
  dpGlobalTokenNums : List Int32
  dpIsDecode : List Int32
  transferKvInfos : List ProtoTransferKVInfo
  eplbInfo : EplbInfo
  embeddingIds : List Int32
  requestIds : List Text
  extraTokenIds : List Int32
  swapBlocks : List BlockTransferInfo
  batchId : UInt64
  srcBlockIndices : List Int32
  dstBlockIndices : List Int32
  cumSum : List Int32

def transferKvInfoToProto (info : TransferKVInfo) : ProtoTransferKVInfo where
  requestId := info.requestId
  localBlocksIds := info.localBlocksIds
  remoteBlocksIds := info.remoteBlocksIds
  dpRank := info.dpRank
  remoteInstanceInfo := {
    name := info.remoteInstanceInfo.name
    rpcAddress := info.remoteInstanceInfo.rpcAddress
    type := info.remoteInstanceInfo.type
    clusterIds := info.remoteInstanceInfo.clusterIds
    addrs := info.remoteInstanceInfo.addrs
    kCacheIds := info.remoteInstanceInfo.kCacheIds
    vCacheIds := info.remoteInstanceInfo.vCacheIds
    dpSize := info.remoteInstanceInfo.dpSize }
  dstXtensorLayerOffsets := info.dstXtensorLayerOffsets

def forwardInputToProto (inputs : RawForwardInput) : ProtoForwardInput where
  flattenTokensVec := inputs.flattenTokensVec
  flattenPositionsVec := inputs.flattenPositionsVec
  accLogprobVec := inputs.accLogprobVec
  samplingParams := inputs.samplingParams
  selectedTokenIdxes := inputs.selectedTokenIdxes
  sampleIdxes := inputs.sampleIdxes
  uniqueTokenIdsVec := inputs.uniqueTokenIdsVec
  uniqueTokenCountsVec := inputs.uniqueTokenCountsVec
  uniqueTokenLensVec := inputs.uniqueTokenLensVec
  batchForwardType := inputs.batchForwardType
  maxSeqLen := inputs.maxSeqLen
  qMaxSeqLen := inputs.qMaxSeqLen
  seqLens := inputs.seqLens
  kvCacheTokensNums := inputs.kvCacheTokensNums
  qSeqLens := inputs.qSeqLens
  pagedKvIndptr := inputs.pagedKvIndptr
  pagedKvIndices := inputs.pagedKvIndices
  pagedKvLastPageLen := inputs.pagedKvLastPageLen
  newTokenSlotIds := inputs.newTokenSlotIds
  blockTablesVec := inputs.blockTablesVec
  numSequences := inputs.numSequences
  dpGlobalTokenNums := inputs.dpGlobalTokenNums
  dpIsDecode := inputs.dpIsDecode
  transferKvInfos := inputs.transferKvInfos.map transferKvInfoToProto
  eplbInfo := inputs.eplbInfo
  embeddingIds := inputs.embeddingIds
  requestIds := inputs.requestIds
  extraTokenIds := inputs.extraTokenIds
  swapBlocks := inputs.swapBlocks
  batchId := inputs.batchId
  srcBlockIndices := inputs.srcBlockIndices
  dstBlockIndices := inputs.dstBlockIndices
  cumSum := inputs.cumSum

def protoToTransferKvInfo (info : ProtoTransferKVInfo) : TransferKVInfo where
  requestId := info.requestId
  localBlocksIds := info.localBlocksIds
  remoteBlocksIds := info.remoteBlocksIds
  dpRank := info.dpRank
  remoteInstanceInfo := {
    name := info.remoteInstanceInfo.name
    rpcAddress := info.remoteInstanceInfo.rpcAddress
    type := info.remoteInstanceInfo.type
    clusterIds := info.remoteInstanceInfo.clusterIds
    addrs := info.remoteInstanceInfo.addrs
    kCacheIds := info.remoteInstanceInfo.kCacheIds
    vCacheIds := info.remoteInstanceInfo.vCacheIds
    dpSize := info.remoteInstanceInfo.dpSize }
  dstXtensorLayerOffsets := info.dstXtensorLayerOffsets

def protoToSampling (pb : ProtoForwardInput) : Option SamplingParameters := do
  guard (pb.samplingParams.length = pb.selectedTokenIdxes.length)
  if pb.selectedTokenIdxes.isEmpty then return {}
  else
    SamplingParameters.init pb.samplingParams pb.selectedTokenIdxes pb.sampleIdxes
      (pad2dVector 0 pb.uniqueTokenIdsVec) (pad2dVector 0 pb.uniqueTokenCountsVec)
      pb.uniqueTokenLensVec

/-- `proto_to_forward_input`. The number of sequences is that of the block tables, which an
`assert` compares with the message in debug builds only. -/
def protoToForwardInput (pb : ProtoForwardInput) : Option ForwardInput := do
  let blockTables ← create2dTensor (pad2dVector 0 pb.blockTablesVec)
  let samplingParams ← protoToSampling pb
  return {
    tokenIds := torchTensor pb.flattenTokensVec
    positions := torchTensor pb.flattenPositionsVec
    accLogprob := torchTensor pb.accLogprobVec
    inputParams := {
      batchForwardType := pb.batchForwardType
      numSequences := Int32.ofNat pb.blockTablesVec.length
      kvMaxSeqLen := pb.maxSeqLen.toInt32
      qMaxSeqLen := pb.qMaxSeqLen.toInt32
      batchId := pb.batchId
      kvSeqLens := torchTensor pb.seqLens
      kvSeqLensVec := pb.seqLens
      qSeqLens := torchTensor pb.qSeqLens
      qSeqLensVec := pb.qSeqLens
      qCuSeqLens := torchTensor (partialSum 0 pb.qSeqLens)
      kvCacheTokensNums := torchTensor pb.kvCacheTokensNums
      kvCacheTokensNumsHost := pb.kvCacheTokensNums
      pagedKvIndptr := torchTensor pb.pagedKvIndptr
      pagedKvIndices := torchTensor pb.pagedKvIndices
      pagedKvLastPageLen := torchTensor pb.pagedKvLastPageLen
      newCacheSlots := torchTensor pb.newTokenSlotIds
      blockTables := blockTables
      dpGlobalTokenNums := pb.dpGlobalTokenNums
      dpIsDecode := pb.dpIsDecode
      embeddingIds := pb.embeddingIds
      requestIds := pb.requestIds
      extraTokenIds := pb.extraTokenIds
      swapBlocks := pb.swapBlocks
      srcBlockIndices := torchTensor pb.srcBlockIndices
      dstBlockIndices := torchTensor pb.dstBlockIndices
      cumSum := torchTensor pb.cumSum }
    samplingParams := samplingParams
    transferKvInfos := pb.transferKvInfos.map protoToTransferKvInfo
    eplbInfo := pb.eplbInfo }

/-- Two inputs agree on what a worker computes with. -/
structure ForwardInput.Agrees (input input' : ForwardInput) : Prop where
  tokenIds : input.tokenIds = input'.tokenIds
  positions : input.positions = input'.positions
  numSequences : input.inputParams.numSequences = input'.inputParams.numSequences
  kvSeqLens : input.inputParams.kvSeqLens = input'.inputParams.kvSeqLens
  kvSeqLensVec : input.inputParams.kvSeqLensVec = input'.inputParams.kvSeqLensVec
  qSeqLens : input.inputParams.qSeqLens = input'.inputParams.qSeqLens
  qSeqLensVec : input.inputParams.qSeqLensVec = input'.inputParams.qSeqLensVec
  qCuSeqLens : input.inputParams.qCuSeqLens = input'.inputParams.qCuSeqLens
  newCacheSlots : input.inputParams.newCacheSlots = input'.inputParams.newCacheSlots
  blockTables : input.inputParams.blockTables = input'.inputParams.blockTables
  pagedKvIndptr : input.inputParams.pagedKvIndptr = input'.inputParams.pagedKvIndptr
  pagedKvIndices : input.inputParams.pagedKvIndices = input'.inputParams.pagedKvIndices
  pagedKvLastPageLen :
    input.inputParams.pagedKvLastPageLen = input'.inputParams.pagedKvLastPageLen
  samplingParams : input.samplingParams = input'.samplingParams
  swapBlocks : input.inputParams.swapBlocks = input'.inputParams.swapBlocks
  transferKvInfos : input.transferKvInfos = input'.transferKvInfos
  eplbInfo : input.eplbInfo = input'.eplbInfo

section Agreement

variable {α : Type}

theorem torchTensor_nil_ne_none [Element α] : torchTensor ([] : List α) ≠ none := by
  rw [torchTensor, tensorOf, dif_pos]
  · exact Option.some_ne_none _
  · exact ⟨by simp, by simp [vectorBytes]⟩

/-- A vector without elements is an undefined tensor in one transport and a tensor without
elements in the other. -/
theorem vectorTensor_eq_torchTensor [Element α] (vec : List α) :
    vectorTensor vec = torchTensor vec ↔ vec ≠ [] := by
  cases vec with
  | nil =>
      simp only [ne_eq, not_true_eq_false, iff_false]
      exact fun h => torchTensor_nil_ne_none h.symm
  | cons x vec => simp [vectorTensor]

theorem cuSeqLens_eq_torchTensor (vec : List Int32) :
    cuSeqLens vec = torchTensor (partialSum 0 vec) ↔ vec ≠ [] := by
  cases vec with
  | nil =>
      simp only [ne_eq, not_true_eq_false, iff_false]
      exact fun h => torchTensor_nil_ne_none h.symm
  | cons x vec => simp [cuSeqLens]

theorem vector2dTensor_ne_torchTensor_nil [Element α] (vec2d : List (List α)) :
    vector2dTensor vec2d ≠ torchTensor ([] : List α) := by
  intro h
  obtain ⟨t, ht⟩ := Option.ne_none_iff_exists'.1 (torchTensor_nil_ne_none (α := α))
  have hshape : t.shape = [0] := shape_of_tensorOf ht
  rw [ht] at h
  cases vec2d with
  | nil => cases h
  | cons row rows =>
      rw [vector2dTensor] at h
      split at h
      · cases h
      · have hshape' := shape_of_tensorOf h
        rw [hshape] at hshape'
        cases hshape'

theorem positionsTensor_eq_torchTensor (input : RawForwardInput) :
    input.positionsTensor = torchTensor input.flattenPositionsVec ↔
      input.flattenPositionsVec ≠ [] := by
  rw [RawForwardInput.positionsTensor]
  cases hvec : input.flattenPositionsVec with
  | nil =>
      simp only [ne_eq, not_true_eq_false, iff_false]
      exact vector2dTensor_ne_torchTensor_nil _
  | cons x vec => simp [vectorTensor]

theorem vector2dTensor_eq_create2dTensor [Element α] {vec2d : List (List α)}
    (h : Rectangular vec2d) (hrows : vec2d.length < 2 ^ 63) :
    create2dTensor vec2d = some (vector2dTensor vec2d) ↔ vec2d = [] ∨ vec2d.headD [] ≠ [] := by
  cases vec2d with
  | nil => simp [create2dTensor, vector2dTensor]
  | cons row rows =>
      have hall : ∀ r ∈ rows, r.length = row.length :=
        fun r hr => h r (mem_cons_of_mem row hr)
      rw [create2dTensor, if_pos hall, vector2dTensor, headD_cons]
      cases row with
      | nil =>
          have hflatten : rows.flatten = [] :=
            List.flatten_eq_nil_iff.2 fun r hr => List.length_eq_zero_iff.1 (hall r hr)
          have hsome : tensorOf [rows.length + 1, 0] (Element.scalarType α)
              (vectorBytes (([] : List α) :: rows).flatten) ≠ none := by
            rw [tensorOf, dif_pos]
            · exact Option.some_ne_none _
            · refine ⟨?_, ?_⟩
              · intro size hsize
                simp only [mem_cons, not_mem_nil, or_false] at hsize
                rcases hsize with rfl | rfl
                · exact hrows
                · decide
              · simp [hflatten, vectorBytes]
          simp only [isEmpty_nil, if_true, length_nil, Option.some.injEq, hsome,
            reduceCtorEq, ne_eq, not_true_eq_false, or_self]
      | cons x row => simp

end Agreement

namespace RawForwardInput

variable {input : RawForwardInput} {samplingParams : SamplingParameters}

/-- What an input needs so that both transports deliver the same. -/
structure Uniform (input : RawForwardInput) : Prop where
  flattenTokensVec : input.flattenTokensVec ≠ []
  flattenPositionsVec : input.flattenPositionsVec ≠ []
  numSequences : input.numSequences = Int32.ofNat input.blockTablesVec.length
  seqLens : input.seqLens ≠ []
  qSeqLens : input.qSeqLens ≠ []
  newTokenSlotIds : input.newTokenSlotIds ≠ []
  blockTablesVec : input.blockTablesVec = [] ∨ input.blockTablesVec.headD [] ≠ []
  pagedKvIndptr : input.pagedKvIndptr ≠ []
  pagedKvIndices : input.pagedKvIndices ≠ []
  pagedKvLastPageLen : input.pagedKvLastPageLen ≠ []
  transferKvInfos : ∀ info ∈ input.transferKvInfos, info.remoteInstanceInfo.ttftProfilingData = []

theorem protoToTransferKvInfo_eq (info : TransferKVInfo) :
    info = protoToTransferKvInfo (transferKvInfoToProto info) ↔
      info.remoteInstanceInfo.ttftProfilingData = [] := by
  constructor
  · intro h
    exact congrArg (fun info => info.remoteInstanceInfo.ttftProfilingData) h
  · intro h
    obtain ⟨requestId, localBlocksIds, remoteBlocksIds, dpRank, remoteInstanceInfo, offsets⟩ :=
      info
    cases remoteInstanceInfo
    cases h
    rfl

theorem transferKvInfos_eq (infos : List TransferKVInfo) :
    infos = (infos.map transferKvInfoToProto).map protoToTransferKvInfo ↔
      ∀ info ∈ infos, info.remoteInstanceInfo.ttftProfilingData = [] := by
  rw [map_map]
  constructor
  · intro h info hinfo
    have heq : infos.map id = infos.map (protoToTransferKvInfo ∘ transferKvInfoToProto) := by
      rw [map_id]
      exact h
    exact (protoToTransferKvInfo_eq info).1 (List.map_inj_left.1 heq info hinfo)
  · intro h
    refine (map_id infos).symm.trans (map_congr_left fun info hinfo => ?_)
    exact (protoToTransferKvInfo_eq info).2 (h info hinfo)

theorem protoToSampling_eq
    (hlength : input.samplingParams.length = input.selectedTokenIdxes.length)
    (hids : Rectangular input.uniqueTokenIdsVec)
    (hcounts : Rectangular input.uniqueTokenCountsVec) :
    protoToSampling (forwardInputToProto input) = input.sampling := by
  rw [protoToSampling, forwardInputToProto, pad2dVector_of_rectangular _ hids,
    pad2dVector_of_rectangular _ hcounts]
  simp only [guard, if_pos hlength]
  rfl

theorem create2dTensor_of_rectangular {vec2d : List (List Int32)} (h : Rectangular vec2d) :
    ∃ tensor, create2dTensor vec2d = some tensor := by
  cases vec2d with
  | nil => exact ⟨none, rfl⟩
  | cons row rows =>
      have hall : ∀ r ∈ rows, r.length = row.length :=
        fun r hr => h r (mem_cons_of_mem row hr)
      rw [create2dTensor, if_pos hall]
      exact ⟨_, rfl⟩

/-- Field by field, the two results agree if and only if the input is uniform. -/
theorem agrees_iff_uniform (hlength : input.samplingParams.length = input.selectedTokenIdxes.length)
    (hids : Rectangular input.uniqueTokenIdsVec) (hcounts : Rectangular input.uniqueTokenCountsVec)
    (htables : Rectangular input.blockTablesVec) (hrows : input.blockTablesVec.length < 2 ^ 63)
    (hsampling : input.sampling = some samplingParams) :
    (∃ result, protoToForwardInput (forwardInputToProto input) = some result ∧
      (input.forwardInput samplingParams).Agrees result) ↔ input.Uniform := by
  obtain ⟨blockTables, hblockTables⟩ := create2dTensor_of_rectangular htables
  have htensor := vector2dTensor_eq_create2dTensor htables hrows
  rw [hblockTables, Option.some.injEq] at htensor
  have hrun : ∃ result, protoToForwardInput (forwardInputToProto input) = some result := by
    rw [protoToForwardInput, protoToSampling_eq hlength hids hcounts, hsampling]
    simp only [forwardInputToProto, pad2dVector_of_rectangular _ htables, hblockTables]
    exact ⟨_, rfl⟩
  obtain ⟨result, hresult⟩ := hrun
  have heq := hresult
  rw [protoToForwardInput, protoToSampling_eq hlength hids hcounts, hsampling] at heq
  simp only [forwardInputToProto, pad2dVector_of_rectangular _ htables, hblockTables] at heq
  obtain rfl := Option.some.inj heq
  constructor
  · rintro ⟨result', hresult', h⟩
    obtain rfl := Option.some.inj (hresult.symm.trans hresult')
    exact {
      flattenTokensVec := (vectorTensor_eq_torchTensor _).1 h.tokenIds
      flattenPositionsVec := (positionsTensor_eq_torchTensor _).1 h.positions
      numSequences := h.numSequences
      seqLens := (vectorTensor_eq_torchTensor _).1 h.kvSeqLens
      qSeqLens := (vectorTensor_eq_torchTensor _).1 h.qSeqLens
      newTokenSlotIds := (vectorTensor_eq_torchTensor _).1 h.newCacheSlots
      blockTablesVec := htensor.1 h.blockTables.symm
      pagedKvIndptr := (vectorTensor_eq_torchTensor _).1 h.pagedKvIndptr
      pagedKvIndices := (vectorTensor_eq_torchTensor _).1 h.pagedKvIndices
      pagedKvLastPageLen := (vectorTensor_eq_torchTensor _).1 h.pagedKvLastPageLen
      transferKvInfos := (transferKvInfos_eq _).1 h.transferKvInfos }
  · intro h
    refine ⟨_, hresult, ?_⟩
    exact {
      tokenIds := (vectorTensor_eq_torchTensor _).2 h.flattenTokensVec
      positions := (positionsTensor_eq_torchTensor _).2 h.flattenPositionsVec
      numSequences := h.numSequences
      kvSeqLens := (vectorTensor_eq_torchTensor _).2 h.seqLens
      kvSeqLensVec := rfl
      qSeqLens := (vectorTensor_eq_torchTensor _).2 h.qSeqLens
      qSeqLensVec := rfl
      qCuSeqLens := (cuSeqLens_eq_torchTensor _).2 h.qSeqLens
      newCacheSlots := (vectorTensor_eq_torchTensor _).2 h.newTokenSlotIds
      blockTables := (htensor.2 h.blockTablesVec).symm
      pagedKvIndptr := (vectorTensor_eq_torchTensor _).2 h.pagedKvIndptr
      pagedKvIndices := (vectorTensor_eq_torchTensor _).2 h.pagedKvIndices
      pagedKvLastPageLen := (vectorTensor_eq_torchTensor _).2 h.pagedKvLastPageLen
      samplingParams := rfl
      swapBlocks := rfl
      transferKvInfos := (transferKvInfos_eq _).2 h.transferKvInfos
      eplbInfo := rfl }

def SameThroughBoth (input : RawForwardInput) (segment : List UInt8) (version : UInt64) : Prop :=
  ∃ segment' result i result', rawInputWrite segment version input = some (true, segment') ∧
    rawInputRead segment' = some (result, i) ∧
    protoToForwardInput (forwardInputToProto input) = some result' ∧ result.Agrees result'

end RawForwardInput

namespace BatchInputBuilder

variable {builder : BatchInputBuilder} {input : RawForwardInput}

/-- The multimodal data of a batch are such that the segment carries them. -/
structure Carried (vec : List MMData) : Prop where
  oneKind : OneKind vec
  plain : ∀ mmData ∈ vec, ∀ value ∈ mmData.values, value.Plain
  countable : ∀ mmData ∈ vec, ∀ value ∈ mmData.values, value.Countable

theorem rectangular_positionRows (vec : List (List (Int32 × Int32 × Int32))) :
    Rectangular (positionRows vec) := by
  intro row hrow
  have hfirst : ((positionRows vec).headD []).length = vec.flatten.length := length_map _
  simp only [positionRows, mem_cons, not_mem_nil, or_false] at hrow
  rcases hrow with rfl | rfl | rfl
  · exact (length_map _).trans hfirst.symm
  · exact (length_map _).trans hfirst.symm
  · exact (length_map _).trans hfirst.symm

theorem plain_of_produced (hinput : builder.stateToRawForwardInput = some input)
    (hmm : Carried input.mmData) : input.Plain := by
  rw [stateToRawForwardInput] at hinput
  split at hinput
  · obtain rfl := Option.some.inj hinput
    exact ⟨by decide, by decide, by decide, by decide, by decide, by decide, hmm.plain⟩
  · split at hinput
    · cases hinput
    · obtain rfl := Option.some.inj hinput
      have hnil : Rectangular ([] : List (List FloatBits)) := by decide
      have hdit : ∀ tensor ∈ ({} : DiTForwardInput).tensors, HasDimensions tensor := by decide
      refine ⟨?_, hnil, rectangular_pad2dVector _ _, rectangular_pad2dVector _ _,
        rectangular_pad2dVector _ _, hdit, hmm.plain⟩
      change Rectangular (if builder.useMrope then _ else [])
      split
      · exact rectangular_positionRows _
      · decide

theorem length_samplingParams_of_produced (hinput : builder.stateToRawForwardInput = some input) :
    input.samplingParams.length = input.selectedTokenIdxes.length := by
  rw [stateToRawForwardInput] at hinput
  split at hinput
  · obtain rfl := Option.some.inj hinput
    rfl
  · split at hinput
    · cases hinput
    · obtain rfl := Option.some.inj hinput
      exact builder.state.length_samplingParams

theorem length_blockTablesVec_of_produced (hinput : builder.stateToRawForwardInput = some input) :
    input.blockTablesVec.length ≤ builder.state.blockTablesVec.length := by
  rw [stateToRawForwardInput] at hinput
  split at hinput
  · obtain rfl := Option.some.inj hinput
    exact Nat.zero_le _
  · split at hinput
    · cases hinput
    · obtain rfl := Option.some.inj hinput
      exact (length_map _).le

/-- What a batch needs so that both transports deliver the same: one position for a token,
no rows that only pad the batch, no profiling data, and something in every vector. -/
structure Uniform (builder : BatchInputBuilder) : Prop where
  useMrope : builder.useMrope = false
  numSequences :
    Int32.ofNat builder.numSequences = Int32.ofNat builder.state.blockTablesVec.length
  transferKvInfos : ∀ info ∈ builder.state.transferKvInfos,
    info.remoteInstanceInfo.ttftProfilingData = []
  flattenTokensVec : builder.state.flattenTokensVec ≠ []
  flattenPositionsVec : builder.state.flattenPositionsVec ≠ []
  seqLens : builder.state.seqLens ≠ []
  qSeqLens : builder.state.qSeqLens ≠ []
  newTokenSlotIds : builder.state.newTokenSlotIds ≠ []
  blockTablesVec : builder.state.blockTablesVec = [] ∨
    ∃ row ∈ builder.state.blockTablesVec, row ≠ []
  pagedKvIndptr : builder.state.pagedKvIndptr ≠ []
  pagedKvIndices : builder.state.pagedKvIndices ≠ []
  pagedKvLastPageLen : builder.state.pagedKvLastPageLen ≠ []

theorem pad2dVector_head {vec2d : List (List Int32)} :
    (pad2dVector 0 vec2d = [] ∨ (pad2dVector 0 vec2d).headD [] ≠ []) ↔
      vec2d = [] ∨ ∃ row ∈ vec2d, row ≠ [] := by
  cases vec2d with
  | nil => simp [pad2dVector]
  | cons first rows =>
      have hmem : (pad2dVector 0 (first :: rows)).headD [] ∈ pad2dVector 0 (first :: rows) :=
        mem_cons_self
      have hlength := length_of_mem_pad2dVector hmem
      have hnil : pad2dVector 0 (first :: rows) ≠ [] := cons_ne_nil _ _
      simp only [hnil, false_or, cons_ne_nil]
      rw [← length_pos_iff]
      constructor
      · intro hpos
        by_contra hall
        push Not at hall
        have hzero : ∀ n ∈ (first :: rows).map List.length, n ≤ 0 := by
          intro n hn
          obtain ⟨row, hrow, rfl⟩ := List.mem_map.1 hn
          rw [hall row hrow]
          exact le_refl 0
        have hle := foldl_max_le (le_refl 0) hzero
        omega
      · rintro ⟨row, hrow, hne⟩
        have hle := (le_foldl_max ((first :: rows).map List.length) 0).2 _
          (mem_map_of_mem hrow)
        have hpos := List.length_pos_iff.2 hne
        omega

theorem uniform_of_produced (hinput : builder.stateToRawForwardInput = some input) :
    input.Uniform ↔ builder.Uniform := by
  rw [stateToRawForwardInput] at hinput
  split at hinput
  · rename_i hempty
    obtain rfl := Option.some.inj hinput
    constructor
    · intro h
      exact absurd rfl h.flattenTokensVec
    · intro h
      exact absurd (List.isEmpty_iff.1 hempty) h.flattenTokensVec
  · split at hinput
    · cases hinput
    · obtain rfl := Option.some.inj hinput
      have hrows : (pad2dVector 0 builder.state.blockTablesVec).length =
          builder.state.blockTablesVec.length := length_map _
      constructor
      · intro h
        have hmrope : builder.useMrope = false := by
          cases hm : builder.useMrope with
          | false => rfl
          | true =>
              have hpositions := h.flattenPositionsVec
              simp only [hm, if_true, ne_eq, not_true_eq_false] at hpositions
        have hpositions := h.flattenPositionsVec
        have hnum := h.numSequences
        simp only [hmrope] at hpositions
        simp only [hrows] at hnum
        exact {
          useMrope := hmrope
          numSequences := hnum
          transferKvInfos := h.transferKvInfos
          flattenTokensVec := h.flattenTokensVec
          flattenPositionsVec := hpositions
          seqLens := h.seqLens
          qSeqLens := h.qSeqLens
          newTokenSlotIds := h.newTokenSlotIds
          blockTablesVec := pad2dVector_head.1 h.blockTablesVec
          pagedKvIndptr := h.pagedKvIndptr
          pagedKvIndices := h.pagedKvIndices
          pagedKvLastPageLen := h.pagedKvLastPageLen }
      · intro h
        refine {
          flattenTokensVec := h.flattenTokensVec
          flattenPositionsVec := ?_
          numSequences := ?_
          seqLens := h.seqLens
          qSeqLens := h.qSeqLens
          newTokenSlotIds := h.newTokenSlotIds
          blockTablesVec := pad2dVector_head.2 h.blockTablesVec
          pagedKvIndptr := h.pagedKvIndptr
          pagedKvIndices := h.pagedKvIndices
          pagedKvLastPageLen := h.pagedKvLastPageLen
          transferKvInfos := h.transferKvInfos }
        · simp only [h.useMrope]
          exact h.flattenPositionsVec
        · simp only [hrows]
          exact h.numSequences

variable {segment : List UInt8}

theorem segment_delivers {samplingParams : SamplingParameters} (version : UInt64)
    (plain : input.Plain) (hmm : Carried input.mmData)
    (hsampling : input.sampling = some samplingParams) (hsize : segment.length < 2 ^ 63)
    (room : ∀ layout, calculateRawForwardInputLayout input = some layout →
      totalSize layout ≤ segment.length) :
    ∃ segment' i, rawInputWrite segment version input = some (true, segment') ∧
      rawInputRead segment' = some (input.forwardInput samplingParams, i) := by
  obtain ⟨d, a, hw, hr⟩ :=
    RawForwardInput.roundTrip_sections plain hmm.oneKind hmm.countable hsampling
  have hroom : 32 + (d.length + a.length) ≤ segment.length :=
    RawForwardInput.totalSize_eq d a ▸ room _ (RawForwardInput.layout_of_writes hw)
  exact ⟨_, _, RawForwardInput.rawInputWrite_of_writes segment version hw hroom,
    RawForwardInput.rawInputRead_written hr hroom hsize⟩

theorem agrees_of_produced {samplingParams : SamplingParameters}
    (hinput : builder.stateToRawForwardInput = some input) (hmm : Carried input.mmData)
    (hrows : builder.state.blockTablesVec.length < 2 ^ 63)
    (hsampling : input.sampling = some samplingParams) :
    (∃ result, protoToForwardInput (forwardInputToProto input) = some result ∧
      (input.forwardInput samplingParams).Agrees result) ↔ builder.Uniform := by
  have plain := plain_of_produced hinput hmm
  have hlength := length_blockTablesVec_of_produced hinput
  rw [← uniform_of_produced hinput]
  exact RawForwardInput.agrees_iff_uniform (length_samplingParams_of_produced hinput)
    plain.uniqueTokenIdsVec plain.uniqueTokenCountsVec plain.blockTablesVec (by omega) hsampling

theorem uniform_of_same {version : UInt64}
    (hinput : builder.stateToRawForwardInput = some input) (hmm : Carried input.mmData)
    (hsampling : input.sampling.isSome) (hrows : builder.state.blockTablesVec.length < 2 ^ 63)
    (hsize : segment.length < 2 ^ 63)
    (room : ∀ layout, calculateRawForwardInputLayout input = some layout →
      totalSize layout ≤ segment.length) (h : input.SameThroughBoth segment version) :
    builder.Uniform := by
  obtain ⟨samplingParams, hsampling⟩ := Option.isSome_iff_exists.1 hsampling
  obtain ⟨segment', i, hwrite, hread⟩ :=
    segment_delivers version (plain_of_produced hinput hmm) hmm hsampling hsize room
  obtain ⟨segment'', result, i', result', hwrite', hread', hproto, hagrees⟩ := h
  obtain ⟨-, rfl⟩ := Prod.mk.inj (Option.some.inj (hwrite.symm.trans hwrite'))
  obtain ⟨rfl, -⟩ := Prod.mk.inj (Option.some.inj (hread.symm.trans hread'))
  exact (agrees_of_produced hinput hmm hrows hsampling).1 ⟨result', hproto, hagrees⟩

theorem room_of_written {segment segment' : List UInt8} {version : UInt64}
    (h : rawInputWrite segment version input = some (true, segment')) :
    ∀ layout, calculateRawForwardInputLayout input = some layout →
      totalSize layout ≤ segment.length := by
  intro layout hlayout
  rw [rawInputWrite, hlayout] at h
  by_contra hroom
  simp only [Option.bind_eq_bind, Option.bind_some, if_pos (Nat.not_le.1 hroom)] at h
  cases h

theorem not_sameThroughBoth (builder : BatchInputBuilder)
    (hinput : builder.stateToRawForwardInput = some input) (hmm : Carried input.mmData)
    (hsampling : input.sampling.isSome) (hrows : builder.state.blockTablesVec.length < 2 ^ 63)
    (huniform : ¬ builder.Uniform) (version : UInt64) (hsize : segment.length < 2 ^ 63) :
    ¬ input.SameThroughBoth segment version := by
  intro h
  obtain ⟨segment', result, i, result', hwrite, hread, hproto, hagrees⟩ := h
  exact huniform (uniform_of_same hinput hmm hsampling hrows hsize (room_of_written hwrite)
    ⟨segment', result, i, result', hwrite, hread, hproto, hagrees⟩)

/-- An input that the builder has made arrives the same through both transports if and only
if the batch is uniform. -/
theorem sameThroughBoth_iff_uniform (builder : BatchInputBuilder) (input : RawForwardInput)
    (segment : List UInt8) (version : UInt64)
    (hinput : builder.stateToRawForwardInput = some input) (hmm : Carried input.mmData)
    (hsampling : input.sampling.isSome) (hrows : builder.state.blockTablesVec.length < 2 ^ 63)
    (hsize : segment.length < 2 ^ 63)
    (room : ∀ layout, calculateRawForwardInputLayout input = some layout →
      totalSize layout ≤ segment.length) :
    input.SameThroughBoth segment version ↔ builder.Uniform := by
  constructor
  · exact uniform_of_same hinput hmm hsampling hrows hsize room
  · intro uniform
    obtain ⟨samplingParams, hsome⟩ := Option.isSome_iff_exists.1 hsampling
    have plain := plain_of_produced hinput hmm
    obtain ⟨segment', i, hwrite, hread⟩ := segment_delivers version plain hmm hsome hsize room
    obtain ⟨result', hproto, hagrees⟩ :=
      (agrees_of_produced hinput hmm hrows hsome).2 uniform
    exact ⟨segment', _, i, result', hwrite, hread, hproto, hagrees⟩

/-- The last chunk of a prompt. Its last token is selected, the blocks go to a decode
instance, and two blocks are swapped in. -/
def chunkBuilder : BatchInputBuilder where
  state := {
    flattenTokensVec := [7, 8]
    flattenPositionsVec := [2, 3]
    samplingParams := [{ temperature := .one }]
    selectedTokenIdxes := [1]
    sampleIdxes := [0]
    uniqueTokenIdsVec := [[5, 6, 7, 8]]
    uniqueTokenCountsVec := [[1, 1, 1, 1]]
    uniqueTokenLensVec := [4]
    batchForwardType := 1
    maxSeqLen := 4
    qMaxSeqLen := 2
    kvCacheTokensNums := [2]
    seqLens := [4]
    qSeqLens := [2]
    newTokenSlotIds := [34, 35]
    blockTablesVec := [[2]]
    transferKvInfos := [⟨[114], [2], [6], 0, {}, []⟩]
    pagedKvIndptr := [0, 1]
    pagedKvIndices := [2]
    pagedKvLastPageLen := [4] }
  numSequences := 1
  swapBlockInfos :=
    { swapBlocks := [⟨9, 2⟩, ⟨8, 3⟩]
      srcBlockIndices := [9, 8]
      dstBlockIndices := [2, 3]
      cumSum := [1, 2] }

theorem carried_nil : Carried ([] : List MMData) :=
  ⟨forall_mem_nil _, forall_mem_nil _, forall_mem_nil _⟩

/-- What the builder makes of `chunkBuilder`. -/
def chunkInput : RawForwardInput where
  flattenTokensVec := [7, 8]
  flattenPositionsVec := [2, 3]
  samplingParams := [{ temperature := .one }]
  selectedTokenIdxes := [1]
  sampleIdxes := [0]
  uniqueTokenIdsVec := [[5, 6, 7, 8]]
  uniqueTokenCountsVec := [[1, 1, 1, 1]]
  uniqueTokenLensVec := [4]
  batchForwardType := 1
  maxSeqLen := 4
  qMaxSeqLen := 2
  seqLens := [4]
  qSeqLens := [2]
  kvCacheTokensNums := [2]
  newTokenSlotIds := [34, 35]
  blockTablesVec := [[2]]
  numSequences := 1
  transferKvInfos := [⟨[114], [2], [6], 0, {}, []⟩]
  swapBlocks := [⟨9, 2⟩, ⟨8, 3⟩]
  srcBlockIndices := [9, 8]
  dstBlockIndices := [2, 3]
  cumSum := [1, 2]
  pagedKvIndptr := [0, 1]
  pagedKvIndices := [2]
  pagedKvLastPageLen := [4]

theorem totalSize_chunkInput :
    (calculateRawForwardInputLayout chunkInput).map totalSize = some 1224 := by
  decide +kernel

theorem uniform_chunkBuilder : chunkBuilder.Uniform := by
  refine ⟨rfl, rfl, List.forall_mem_singleton.mpr rfl, ?_, ?_, ?_, ?_, ?_, ?_, ?_, ?_, ?_⟩
  · exact cons_ne_nil _ _
  · exact cons_ne_nil _ _
  · exact cons_ne_nil _ _
  · exact cons_ne_nil _ _
  · exact cons_ne_nil _ _
  · exact Or.inr ⟨[2], mem_cons_self, cons_ne_nil _ _⟩
  · exact cons_ne_nil _ _
  · exact cons_ne_nil _ _
  · exact cons_ne_nil _ _

/-- A chunk with selected tokens, a swapped block and blocks to push. -/
theorem chunkBuilder_sameThroughBoth :
    chunkBuilder.stateToRawForwardInput = some chunkInput ∧ chunkBuilder.Uniform ∧
      chunkInput.SameThroughBoth (replicate 2048 0) 1 := by
  have hinput : chunkBuilder.stateToRawForwardInput = some chunkInput := rfl
  have hlength : (replicate 2048 (0 : UInt8)).length = 2048 := length_replicate ..
  have hrows : chunkBuilder.state.blockTablesVec.length < 2 ^ 63 := by
    rw [show chunkBuilder.state.blockTablesVec.length = 1 from rfl]
    decide
  have hsize : (replicate 2048 (0 : UInt8)).length < 2 ^ 63 := by
    rw [hlength]
    decide
  have room : ∀ layout, calculateRawForwardInputLayout chunkInput = some layout →
      totalSize layout ≤ (replicate 2048 (0 : UInt8)).length := by
    intro layout h
    have htotal := totalSize_chunkInput
    rw [h] at htotal
    rw [Option.some.inj htotal, hlength]
    decide
  exact ⟨hinput, uniform_chunkBuilder,
    (sameThroughBoth_iff_uniform chunkBuilder chunkInput _ 1 hinput carried_nil rfl hrows hsize
      room).2 uniform_chunkBuilder⟩

/-- One sequence in its decoding phase. -/
def decodeBuilder : BatchInputBuilder where
  state := {
    flattenTokensVec := [7]
    flattenPositionsVec := [3]
    mropePositionsVec := [[(3, 3, 3)]]
    samplingParams := [{}]
    selectedTokenIdxes := [0]
    sampleIdxes := [0]
    batchForwardType := 2
    maxSeqLen := 4
    qMaxSeqLen := 1
    kvCacheTokensNums := [3]
    seqLens := [4]
    qSeqLens := [1]
    newTokenSlotIds := [35]
    blockTablesVec := [[2]]
    pagedKvIndptr := [0, 1]
    pagedKvIndices := [2]
    pagedKvLastPageLen := [4] }
  numSequences := 1

/-- A batch that is padded to two sequences is not the same through both transports, and
neither is one with three positions for a token. -/
theorem paddedBatch_not_same :
    (∃ input, (decodeBuilder.paddingDecodeBatchSize false 1 2).stateToRawForwardInput =
        some input ∧ input.numSequences = 1 ∧ input.blockTablesVec = [[2], [0]] ∧
      ∀ segment version, segment.length < 2 ^ 63 → ¬ input.SameThroughBoth segment version) ∧
    ∃ input, { decodeBuilder with useMrope := true }.stateToRawForwardInput = some input ∧
      input.flattenPositionsVec = [] ∧ input.mPositionsVec = [[3], [3], [3]] ∧
      ∀ segment version, segment.length < 2 ^ 63 → ¬ input.SameThroughBoth segment version := by
  refine ⟨⟨_, rfl, by decide, by decide, ?_⟩, ⟨_, rfl, by decide, by decide, ?_⟩⟩
  · intro segment version hsize
    refine not_sameThroughBoth (decodeBuilder.paddingDecodeBatchSize false 1 2) rfl
      carried_nil (by decide +kernel) (by decide) ?_ version hsize
    intro h
    exact absurd h.numSequences (by decide)
  · intro segment version hsize
    refine not_sameThroughBoth { decodeBuilder with useMrope := true } rfl
      carried_nil (by decide +kernel) (by decide) ?_ version hsize
    intro h
    exact absurd h.useMrope (by decide)

end BatchInputBuilder

end Xllm.SharedMemory
