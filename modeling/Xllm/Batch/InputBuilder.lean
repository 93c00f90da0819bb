import Xllm.Lib.Chunks
import Xllm.Request.SampleSlot
import Xllm.Request.Sequence
import Mathlib.Data.Finset.Basic
import Mathlib.Data.Finset.Lattice.Basic
import Mathlib.Algebra.GroupWithZero.Nat

/-!
# The batch input builder

`BatchInputBuilder` flattens the sequences of a batch into the vectors that the
model reads. A small batch is flattened sequence by sequence. A large one is split
over the threads of a pool, each of which fills a state of its own, and the states
are merged in the order of the threads.

`refresh_output_targets` of the batch lists, before the input is built, which
sequence and slot each row of the sampler output belongs to.
-/

namespace Xllm

open Contract

inductive Platform where
  | npu
  | musa
  | mlu
  | cuda
  | ilu
  deriving DecidableEq

def Platform.cumulative : Platform → Bool
  | .npu => false
  | .musa => false
  | _ => true

inductive BatchForwardType where
  | prefill
  | chunkedPrefill
  | decode
  | mixed
  | empty
  deriving DecidableEq

/-- `TransferKVInfo`, without the description of the remote instance. -/
structure TransferKVInfo where
  requestId : String
  localBlocksIds : List Int
  remoteBlocksIds : List Int
  dpRank : Int
  deriving DecidableEq

/-- A sequence with the members that only the builder reads. -/
structure BatchSequence extends Sequence where
  requestId : String := ""
  /-- The address of the sampling parameters. -/
  samplingParam : Nat := 0
  sampleSlots : List SampleSlot := []
  slotsListed : SlotsListed sampleSlots := by exact slotsListed_nil
  /-- `token_to_count_map_`, in the order in which it is traversed. -/
  tokenToCountMap : List (Token × Int) := []
  /-- The bits of `get_acc_logprob`. -/
  accLogprob : BitVec 32 := 0
  transferKvInfo : Option TransferKVInfo := none

def BatchSequence.numGeneratedTokens (seq : BatchSequence) : Nat :=
  seq.numTokens - seq.numPromptTokens

structure BatchEntry where
  sequence : BatchSequence
  allowedMaxTokens : Nat

/-- `OutputTarget`. The sequence is named by its position in the batch. -/
structure OutputTarget where
  sequence : Nat
  sampleId : Nat
  fromSampleSlot : Bool
  deriving DecidableEq

def sequenceTargets (entry : BatchEntry) (index : Nat) : Except Check (List OutputTarget) :=
  let seq := entry.sequence
  let nTokens := seq.numTokens
  let nKvCacheTokens := seq.kvState.kvCacheTokensNum
  if nTokens ≤ nKvCacheTokens then .ok []
  else if entry.allowedMaxTokens = 0 then .error .batchInput
  else
    let seqLen := min (nTokens - nKvCacheTokens) entry.allowedMaxTokens + nKvCacheTokens
    if seq.sampleSlots = [] then
      if seqLen = nTokens then .ok [⟨index, 0, false⟩] else .ok []
    else
      .ok ((seq.sampleSlots.filter fun slot =>
          nKvCacheTokens ≤ slot.sourcePosition && slot.sourcePosition < seqLen).map
        fun slot => ⟨index, slot.sampleId, true⟩)

def refreshOutputTargets (entries : List BatchEntry) : Except Check (List OutputTarget) :=
  entries.zipIdx.foldlM (fun targets entry => do
    let new ← sequenceTargets entry.1 entry.2
    .ok (targets ++ new)) []

/-- `BuilderState`. The last three members are not part of the source: the target
that each selected index stands for, `write_block_ids`, which the source passes
beside the state, and the sequences as the builder leaves them. -/
structure BuilderState where
  flattenTokensVec : List Token := []
  flattenPositionsVec : List Nat := []
  mropePositionsVec : List (List (List Int)) := []
  samplingParams : List Nat := []
  selectedTokenIdxes : List Nat := []
  sampleIdxes : List Nat := []
  uniqueTokenIdsVec : List (List Token) := []
  uniqueTokenCountsVec : List (List Int) := []
  uniqueTokenLensVec : List Nat := []
  batchForwardType : BatchForwardType := .empty
  maxSeqLen : Nat := 0
  qMaxSeqLen : Nat := 0
  kvCacheTokensNums : List Nat := []
  seqLens : List Nat
  qSeqLens : List Nat
  newTokenSlotIds : List Int := []
  blockTablesVec : List (List Int) := []
  accLogprobVec : List (BitVec 32) := []
  embeddingIds : List Int := []
  requestIds : List String := []
  extraTokenIds : List Token := []
  transferKvInfos : List TransferKVInfo := []
  pagedKvIndptr : List Nat := [0]
  pagedKvIndices : List Int := []
  pagedKvLastPageLen : List Nat := []
  rows : List OutputTarget := []
  writeBlockIds : Finset Int := ∅
  processed : List Sequence := []

structure BatchInputBuilder where
  platform : Platform
  useMrope : Bool := false
  needUniqueTokens : Bool := true
  /-- At least one. -/
  cpSize : Nat := 1
  padTokenId : Token := 0
  enableBeamSearchKernel : Bool := false
  mropePositions : BatchSequence → List (List Int) := fun _ => []

namespace BatchInputBuilder

variable (b : BatchInputBuilder)

def emptyState (batchForwardType : BatchForwardType) : BuilderState where
  batchForwardType := batchForwardType
  seqLens := if b.platform.cumulative then [0] else []
  qSeqLens := if b.platform.cumulative then [0] else []

/-- The sequence lengths that `process_single_sequence` records. -/
def recordLengths (nKvCacheTokens seqLen paddedQSeqLen : Nat) (s : BuilderState) : BuilderState :=
  { s with
    maxSeqLen := max s.maxSeqLen seqLen
    qMaxSeqLen := max s.qMaxSeqLen paddedQSeqLen
    kvCacheTokensNums := s.kvCacheTokensNums ++ [nKvCacheTokens]
    seqLens := match b.platform with
      | .npu => s.seqLens ++ [seqLen]
      | .musa => s.seqLens
      | _ => s.seqLens ++ [Chunks.back s.seqLens + seqLen]
    qSeqLens := match b.platform with
      | .npu => s.qSeqLens ++ [paddedQSeqLen]
      | .musa => s.qSeqLens
      | _ => s.qSeqLens ++ [Chunks.back s.qSeqLens + paddedQSeqLen] }

def pushToken (token : Token) (j : Nat) (s : BuilderState) : BuilderState :=
  { s with
    flattenTokensVec := s.flattenTokensVec ++ [token]
    flattenPositionsVec :=
      if b.useMrope then s.flattenPositionsVec else s.flattenPositionsVec ++ [j] }

/-- `handle_sampling_parameters`: the last token becomes a row of the sampler. -/
def handleSamplingParameters (seq : BatchSequence) (target : OutputTarget) (s : BuilderState) :
    Except Check BuilderState :=
  let s := { s with
    selectedTokenIdxes := s.selectedTokenIdxes ++ [s.flattenTokensVec.length - 1]
    samplingParams := s.samplingParams ++ [seq.samplingParam]
    sampleIdxes := s.sampleIdxes ++ [s.selectedTokenIdxes.length]
    rows := s.rows ++ [target] }
  if b.needUniqueTokens = false then .ok s
  else if seq.tokenToCountMap.any fun entry => entry.2 < 0 then .error .negativeTokenCount
  else
    .ok { s with
      uniqueTokenIdsVec := s.uniqueTokenIdsVec ++ [seq.tokenToCountMap.map Prod.fst]
      uniqueTokenCountsVec := s.uniqueTokenCountsVec ++ [seq.tokenToCountMap.map Prod.snd]
      uniqueTokenLensVec := s.uniqueTokenLensVec ++ [seq.tokenToCountMap.length] }

/-- The inner loop of `extract_tokens_and_positions` at position `j`. The first
argument of the result is what remains behind the cursor. -/
def sampleAt (seq : BatchSequence) (index j : Nat) :
    List SampleSlot → BuilderState → Except Check (List SampleSlot × BuilderState)
  | [], s => .ok ([], s)
  | slot :: slots, s =>
      if slot.sourcePosition < j then sampleAt seq index j slots s
      else if j < slot.sourcePosition then .ok (slot :: slots, s)
      else do
        let s ← b.handleSamplingParameters seq ⟨index, slot.sampleId, true⟩ s
        sampleAt seq index j slots s

def extractToken (seq : BatchSequence) (index : Nat) (cursor : List SampleSlot × BuilderState)
    (j : Nat) : Except Check (List SampleSlot × BuilderState) :=
  match seq.tokens[j]? with
  | none => .error .outOfBounds
  | some token =>
      let s := b.pushToken token j cursor.2
      if seq.sampleSlots = [] then
        if j + 1 < seq.numTokens then .ok (cursor.1, s)
        else do
          let s ← b.handleSamplingParameters seq ⟨index, 0, false⟩ s
          .ok (cursor.1, s)
      else b.sampleAt seq index j cursor.1 s

/-- The last part of `extract_tokens_and_positions`. -/
def addExtraToken (seq : BatchSequence) (seqLen : Nat) (s : BuilderState) :
    Except Check BuilderState :=
  if seq.numTokens = seqLen then
    .ok { s with
      extraTokenIds := s.extraTokenIds ++ [-1]
      embeddingIds := s.embeddingIds ++ [seq.embeddingBlock.id]
      requestIds := s.requestIds ++ [seq.requestId] }
  else
    match seq.tokens[seqLen]? with
    | none => .error .outOfBounds
    | some token => .ok { s with extraTokenIds := s.extraTokenIds ++ [token] }

def extractTokensAndPositions (seq : BatchSequence)
    (index nKvCacheTokens seqLen paddedSeqLen : Nat) (s : BuilderState) :
    Except Check BuilderState := do
  let s := if b.useMrope then
    { s with mropePositionsVec := s.mropePositionsVec ++ [b.mropePositions seq] } else s
  let cursor ← (List.range' nKvCacheTokens (seqLen - nKvCacheTokens)).foldlM
    (b.extractToken seq index) (seq.sampleSlots, s)
  -- right padding for context-parallel prefill
  let s := (List.range' seqLen (paddedSeqLen - seqLen)).foldl
    (fun s j => b.pushToken b.padTokenId j s) cursor.2
  addExtraToken seq seqLen s

def setupKvCacheInfo (seq : BatchSequence) (slotIds : List Int) (nKvCacheTokens seqLen : Nat)
    (s : BuilderState) : Except Check BuilderState :=
  let blocks := seq.kvState.blocks
  let blockIds := blocks.map Block.id
  let blockSize := (blocks.getLast?.map Block.size).getD 0
  if blockSize = 0 then .error .divisionByZero
  else
    .ok { s with
      newTokenSlotIds := s.newTokenSlotIds ++ slotIds
      pagedKvIndices := s.pagedKvIndices ++ blockIds
      pagedKvIndptr := s.pagedKvIndptr ++ [Chunks.back s.pagedKvIndptr + blocks.length]
      pagedKvLastPageLen := s.pagedKvLastPageLen ++
        [if seqLen % blockSize = 0 then blockSize else seqLen % blockSize]
      writeBlockIds := s.writeBlockIds ∪ (blockIds.drop (nKvCacheTokens / blockSize)).toFinset
      transferKvInfos := s.transferKvInfos ++ seq.transferKvInfo.toList.map fun info =>
        -- as many of the last blocks as the remote side has
        let pushSize := Sequence.subUInt32 blocks.length info.remoteBlocksIds.length
        { info with localBlocksIds := blockIds.drop pushSize }
      blockTablesVec := s.blockTablesVec ++ [blockIds] }

/-- The last part of `process_single_sequence`: the input of the beam search kernel. -/
def addAccLogprob (seq : BatchSequence) (updated : Sequence) (s : BuilderState) : BuilderState :=
  { s with
    processed := s.processed ++ [updated]
    accLogprobVec :=
      if b.enableBeamSearchKernel && seq.checkBeamSearch && 0 < seq.numGeneratedTokens then
        s.accLogprobVec ++ [seq.accLogprob]
      else s.accLogprobVec }

def processSingleSequence (s : BuilderState) (entry : BatchEntry × Nat) :
    Except Check BuilderState := do
  let seq := entry.1.sequence
  let isPrefill := decide (s.batchForwardType = .prefill)
  let (slotIds, updated) ←
    seq.toSequence.processSingleSequence entry.1.allowedMaxTokens b.cpSize isPrefill
  let (qSeqLen, paddedQSeqLen) := seq.querySeqLen entry.1.allowedMaxTokens b.cpSize isPrefill
  let nKvCacheTokens := seq.kvState.kvCacheTokensNum
  let s := b.recordLengths nKvCacheTokens (paddedQSeqLen + nKvCacheTokens) paddedQSeqLen s
  let s ← b.extractTokensAndPositions seq entry.2 nKvCacheTokens (qSeqLen + nKvCacheTokens)
    (paddedQSeqLen + nKvCacheTokens) s
  let s ← setupKvCacheInfo seq slotIds nKvCacheTokens (paddedQSeqLen + nKvCacheTokens) s
  .ok (b.addAccLogprob seq updated s)

/-- The sequential branch of `process_sequences`. -/
def processSequencesSequentially (batchForwardType : BatchForwardType) (entries : List BatchEntry) :
    Except Check BuilderState :=
  entries.zipIdx.foldlM b.processSingleSequence (b.emptyState batchForwardType)

def threadEntries (entries : List (BatchEntry × Nat)) (sequencesPerThread threadIdx : Nat) :
    List (BatchEntry × Nat) :=
  let threadStartIdx := threadIdx * sequencesPerThread
  let threadEndIdx := min (threadStartIdx + sequencesPerThread) entries.length
  (entries.drop threadStartIdx).take (threadEndIdx - threadStartIdx)

def mergeState (s t : BuilderState) : BuilderState :=
  { s with
    flattenTokensVec := s.flattenTokensVec ++ t.flattenTokensVec
    flattenPositionsVec := if b.useMrope = false then
      s.flattenPositionsVec ++ t.flattenPositionsVec else s.flattenPositionsVec
    mropePositionsVec := if b.useMrope = false then
      s.mropePositionsVec else s.mropePositionsVec ++ t.mropePositionsVec
    blockTablesVec := s.blockTablesVec ++ t.blockTablesVec
    accLogprobVec := s.accLogprobVec ++ t.accLogprobVec
    selectedTokenIdxes := s.selectedTokenIdxes ++
      t.selectedTokenIdxes.map (· + s.flattenTokensVec.length)
    samplingParams := s.samplingParams ++ t.samplingParams
    sampleIdxes := s.sampleIdxes ++ t.sampleIdxes.map (· + s.sampleIdxes.length)
    uniqueTokenIdsVec := s.uniqueTokenIdsVec ++ t.uniqueTokenIdsVec
    uniqueTokenCountsVec := s.uniqueTokenCountsVec ++ t.uniqueTokenCountsVec
    uniqueTokenLensVec := s.uniqueTokenLensVec ++ t.uniqueTokenLensVec
    maxSeqLen := max s.maxSeqLen t.maxSeqLen
    qMaxSeqLen := max s.qMaxSeqLen t.qMaxSeqLen
    seqLens := if b.platform.cumulative then Chunks.mergeSums s.seqLens t.seqLens
      else s.seqLens ++ t.seqLens
    qSeqLens := if b.platform.cumulative then Chunks.mergeSums s.qSeqLens t.qSeqLens
      else s.qSeqLens ++ t.qSeqLens
    -- the branch for cumulative lengths does not merge this one
    kvCacheTokensNums := if b.platform.cumulative then s.kvCacheTokensNums
      else s.kvCacheTokensNums ++ t.kvCacheTokensNums
    newTokenSlotIds := s.newTokenSlotIds ++ t.newTokenSlotIds
    embeddingIds := s.embeddingIds ++ t.embeddingIds
    requestIds := s.requestIds ++ t.requestIds
    extraTokenIds := s.extraTokenIds ++ t.extraTokenIds
    transferKvInfos := s.transferKvInfos ++ t.transferKvInfos
    pagedKvIndptr := Chunks.mergeSums s.pagedKvIndptr t.pagedKvIndptr
    pagedKvIndices := s.pagedKvIndices ++ t.pagedKvIndices
    pagedKvLastPageLen := s.pagedKvLastPageLen ++ t.pagedKvLastPageLen
    rows := s.rows ++ t.rows
    writeBlockIds := s.writeBlockIds ∪ t.writeBlockIds
    processed := s.processed ++ t.processed }

def processSequencesMultithreaded (batchForwardType : BatchForwardType) (threadsNum : Nat)
    (entries : List BatchEntry) : Except Check BuilderState :=
  if threadsNum = 0 then .error .divisionByZero
  else do
    let sequencesPerThread := (entries.length + threadsNum - 1) / threadsNum
    let states ← (List.range threadsNum).mapM fun threadIdx =>
      (threadEntries entries.zipIdx sequencesPerThread threadIdx).foldlM b.processSingleSequence
        (b.emptyState batchForwardType)
    .ok (states.foldl b.mergeState (b.emptyState batchForwardType))

def processSequences (batchForwardType : BatchForwardType) (threadPool : Option Nat)
    (entries : List BatchEntry) : Except Check BuilderState :=
  match threadPool with
  | none => b.processSequencesSequentially batchForwardType entries
  | some size =>
      if size ≤ entries.length then
        b.processSequencesMultithreaded batchForwardType size entries
      else b.processSequencesSequentially batchForwardType entries

end BatchInputBuilder

end Xllm
