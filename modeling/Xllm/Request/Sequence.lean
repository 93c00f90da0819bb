import Xllm.Request.KVCacheState

/-!
# Sequences

The part of `Sequence` that block management reads and writes: the token buffer,
the device and host key-value states, the embedding block and what decides the
stage. Sampling, logprobs, decoding and timing are left out.
-/

namespace Xllm

open Contract

inductive SequenceStage where
  | prefill
  | chunkedPrefill
  | decode
  deriving DecidableEq

structure Sequence where
  tokenBuffer : List Token := []
  numTokens : Nat := 0
  numPromptTokens : Nat := 0
  volatileNumPromptTokens : Nat := 0
  kvState : KVCacheState := {}
  hostKvState : KVCacheState := {}
  embeddingBlock : Block := {}
  beamWidth : Nat := 0
  finished : Bool := false
  deriving DecidableEq

namespace Sequence

/-- The constructor, for a model that is not onerec. A vector of tokens cannot be
resized to `2 ^ 61` elements. -/
def create (promptTokenIds : List Token) (capacity beamWidth : Nat) : Except Check Sequence :=
  if promptTokenIds ≠ [] ∧ promptTokenIds.length < capacity ∧ capacity < 2 ^ 61 then
    .ok { tokenBuffer := promptTokenIds ++ List.replicate (capacity - promptTokenIds.length) 0
          numTokens := promptTokenIds.length
          numPromptTokens := promptTokenIds.length
          volatileNumPromptTokens := promptTokenIds.length
          beamWidth := beamWidth }
  else .error .newSequence

/-- A new sequence holds no block and has room for a token. -/
theorem create_ensures (promptTokenIds : List Token) (capacity beamWidth : Nat) :
    Ensures (create promptTokenIds capacity beamWidth) (fun e => e = .newSequence) (fun seq =>
      seq.kvState = {} ∧ seq.hostKvState = {} ∧ 0 < seq.numTokens ∧
      seq.numTokens < seq.tokenBuffer.length ∧ seq.tokenBuffer.length < 2 ^ 61) := by
  rw [create]
  split
  · rename_i hroom
    obtain ⟨hne, hlt, hmax⟩ := hroom
    refine ⟨rfl, rfl, List.length_pos_iff.mpr hne, ?_, ?_⟩ <;>
      simp only [List.length_append, List.length_replicate] <;> omega
  · exact rfl

variable (seq : Sequence)

def tokens : List Token := seq.tokenBuffer.take seq.numTokens

/-- The tokens whose keys and values are in the cache. -/
def computedTokens : List Token := seq.tokenBuffer.take seq.kvState.kvCacheTokensNum

/-- `cached_tokens`, a slice that has to lie in the buffer. -/
def cachedTokens : Except Check (List Token) :=
  if seq.kvState.kvCacheTokensNum ≤ seq.tokenBuffer.length then .ok seq.computedTokens
  else .error .sliceOutOfRange

def hasEmbeddingId : Bool := seq.embeddingBlock.isValid

def checkBeamSearch : Bool := 1 < seq.beamWidth

def stage : SequenceStage :=
  if seq.kvState.kvCacheTokensNum < max seq.volatileNumPromptTokens seq.numPromptTokens then
    if 0 < seq.kvState.kvCacheTokensNum then .chunkedPrefill else .prefill
  else .decode

/-- `append_token`, for a model that is not onerec. -/
def appendToken (token : Token) : Except Check Sequence :=
  if seq.numTokens < seq.tokenBuffer.length ∧ seq.finished = false ∧
      0 < seq.kvState.kvCacheTokensNum ∧ seq.stage ≠ .chunkedPrefill then
    .ok { seq with
      numTokens := seq.numTokens + 1
      kvState := seq.kvState.setKvCacheTokensNum seq.numTokens
      tokenBuffer := seq.tokenBuffer.set seq.numTokens token }
  else .error .appendToken

/-- Subtraction of `uint32_t` values. -/
def subUInt32 (a b : Nat) : Nat := if b ≤ a then a - b else a + 2 ^ 32 - b

/-- Subtraction of `size_t` values. -/
def subSize (a b : Nat) : Nat := if b ≤ a then a - b else a + 2 ^ 64 - b

def alignUp (n multiple : Nat) : Nat := (n + multiple - 1) / multiple * multiple

/-- The tokens that `process_single_sequence` puts into the batch, and their number
with the padding of context-parallel prefill. -/
def querySeqLen (allowedMaxTokens cpSize : Nat) (isPrefill : Bool) : Nat × Nat :=
  let qSeqLen := min (subUInt32 seq.numTokens seq.kvState.kvCacheTokensNum) allowedMaxTokens
  (qSeqLen, if 1 < cpSize ∧ isPrefill = true then
    min allowedMaxTokens (alignUp qSeqLen (cpSize * 2)) else qSeqLen)

/-- `BatchInputBuilder::process_single_sequence`, as far as it reads and writes the
key-value state: the slots of the new tokens, and the increased token count. -/
def processSingleSequence (allowedMaxTokens cpSize : Nat) (isPrefill : Bool) :
    Except Check (List Int × Sequence) :=
  let (qSeqLen, paddedQSeqLen) := seq.querySeqLen allowedMaxTokens cpSize isPrefill
  let nKvCacheTokens := seq.kvState.kvCacheTokensNum
  let seqLen := paddedQSeqLen + nKvCacheTokens
  if 0 < allowedMaxTokens ∧ seqLen ≤ seq.kvState.currentMaxTokensCapacity ∧ 0 < qSeqLen then do
    let kvState ← seq.kvState.incrKvCacheTokensNum paddedQSeqLen
    let slots ← kvState.kvCacheSlots nKvCacheTokens seqLen
    .ok (slots, { seq with kvState := kvState })
  else .error .batchInput

def updateToken (index : Nat) (token : Token) : Sequence :=
  { seq with tokenBuffer := seq.tokenBuffer.set index token }

def reset (device host : BlockHeap) : Except Check (Sequence × BlockHeap × BlockHeap) := do
  let (kvState, device) ← seq.kvState.reset device
  let (hostKvState, host) ← seq.hostKvState.reset host
  .ok ({ seq with
    kvState := kvState
    hostKvState := hostKvState
    volatileNumPromptTokens := seq.numTokens }, device, host)

def released : Sequence :=
  { seq with
    kvState := seq.kvState.cleared
    hostKvState := seq.hostKvState.cleared
    volatileNumPromptTokens := seq.numTokens }

variable {seq} in
/-- A sequence that passes the checks of the batch builder gets its slots, and its
token count stays within its blocks. -/
theorem processSingleSequence_ensures (allowedMaxTokens cpSize : Nat) (isPrefill : Bool) :
    Ensures (seq.processSingleSequence allowedMaxTokens cpSize isPrefill)
      (fun e => e = .batchInput)
      (fun r =>
        seq.kvState.kvCacheTokensNum + (seq.querySeqLen allowedMaxTokens cpSize isPrefill).2 ≤
          seq.kvState.currentMaxTokensCapacity ∧
        r.2 = { seq with kvState := { seq.kvState with
          kvCacheTokensNum := seq.kvState.kvCacheTokensNum +
            (seq.querySeqLen allowedMaxTokens cpSize isPrefill).2 } }) := by
  obtain ⟨q, padded, hq⟩ : ∃ q padded,
      seq.querySeqLen allowedMaxTokens cpSize isPrefill = (q, padded) := ⟨_, _, rfl⟩
  rw [processSingleSequence, hq]
  simp only
  split
  swap
  · exact rfl
  rename_i hchecks
  obtain ⟨hallowed, hroom, hpos⟩ := hchecks
  let kvState : KVCacheState :=
    { seq.kvState with kvCacheTokensNum := seq.kvState.kvCacheTokensNum + padded }
  have hincr : seq.kvState.incrKvCacheTokensNum padded = .ok kvState := by
    rw [KVCacheState.incrKvCacheTokensNum, if_pos (by omega)]
  have hpadded : 0 < padded := by
    simp only [querySeqLen, Prod.mk.injEq] at hq
    obtain ⟨hqeq, hpeq⟩ := hq
    rw [← hpeq]
    split
    · rename_i hcp
      have hup : 0 < alignUp q (cpSize * 2) := by
        refine Nat.mul_pos (Nat.div_pos ?_ ?_) ?_ <;> omega
      rw [hqeq]
      omega
    · omega
  have hroom' : padded + seq.kvState.kvCacheTokensNum ≤ kvState.currentMaxTokensCapacity := hroom
  refine Ensures.bind (Q := fun kv => kv = kvState) (by rw [hincr]; exact rfl) ?_
  rintro _ rfl
  refine Ensures.bind (KVCacheState.kvCacheSlots_ensures (by omega) hroom').total fun slots _ => ?_
  exact ⟨by omega, rfl⟩

variable {seq} in
theorem reset_ensures {device host : BlockHeap} {padding hostPadding : Block}
    {rest hostRest : Multiset (Ledger.Handle Int)}
    (hdevice : Owned device padding (seq.kvState.handles + rest))
    (hhost : Owned host hostPadding (seq.hostKvState.handles + hostRest)) :
    Yields (seq.reset device host) (fun r => r.1 = seq.released ∧
      (Owned r.2.1 padding (seq.released.kvState.handles + rest) ∧
        r.2.1.freeBlocks.length = device.freeBlocks.length) ∧
      Owned r.2.2 hostPadding (seq.released.hostKvState.handles + hostRest) ∧
        r.2.2.freeBlocks.length = host.freeBlocks.length) := by
  rw [reset]
  refine (KVCacheState.reset_ensures hdevice).bind fun d hd => ?_
  refine (KVCacheState.reset_ensures hhost).bind fun o ho => ?_
  exact ⟨by rw [hd.1, ho.1, released], hd.2, ho.2⟩

end Sequence

end Xllm
