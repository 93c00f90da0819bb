import Xllm.Batch.InputBuilder
import Xllm.Batch.ScheduleOverlap

/-!
# Sample slots under chunked prefill

A sample request receives one token for each slot of its prompt. The sequence is computed
chunk by chunk; `refresh_output_targets` lists the slots whose source lies in the chunk
of the step, and `process_sample_output` appends the token of every listed slot, also
when the rest of the prompt is still to come. `append_token` does not allow that.
-/

namespace Xllm

open Contract List

/-- A request of `/v1/sample`. The prompt is encoded twice: the slots are built from it
without special tokens, the sequence starts from `promptTokens`. -/
structure SampleRequest where
  requestId : String
  prompt : String
  literal : String
  tokenizer : Tokenizer
  settings : GenerationRequest
  sampleSlots : List SampleSlot
  built : buildSampleSlots requestId prompt literal tokenizer = some sampleSlots
  /-- A request without slots is answered without the engine. -/
  nonempty : sampleSlots ≠ []
  /-- The positions of the prompt are 32-bit numbers. -/
  counted : ∀ tokens ∈ tokenizer.encode prompt, tokens.length < 2 ^ 32

namespace SampleRequest

variable (request : SampleRequest)

def generation : GenerationRequest :=
  { request.settings with
    maxTokens := 1
    isSampleRequest := true
    numSampleSlots := UInt32.ofNat request.sampleSlots.length
    logprobs := true }

/-- The number of tokens that are computed before the first one is sampled. -/
def numPromptTokens : Nat := request.settings.promptTokens.length

theorem slotsListed : SlotsListed request.sampleSlots :=
  buildSampleSlots_listed (fun tokens h => (request.counted tokens h).le) request.built

end SampleRequest

/-- One step of the engine on a batch that has the sequence in it. -/
structure PrefillChunk where
  kvState : KVCacheState
  allowedMaxTokens : Nat
  cpSize : Nat := 1
  isPrefill : Bool := false
  index : Nat := 0
  targetsBefore : Nat := 0
  outputs : List (List SampledToken) := []

namespace PrefillChunk

variable (chunk : PrefillChunk)

/-- The number of tokens of the prompt that the step computes, without and with padding. -/
def querySeqLen (numTokens : Nat) : Nat × Nat :=
  Sequence.querySeqLen { numTokens := numTokens, kvState := chunk.kvState }
    chunk.allowedMaxTokens chunk.cpSize chunk.isPrefill

def Computes (numTokens : Nat) (slot : SampleSlot) : Prop :=
  chunk.kvState.kvCacheTokensNum ≤ slot.sourcePosition ∧
    slot.sourcePosition < chunk.kvState.kvCacheTokensNum + (chunk.querySeqLen numTokens).1

instance (numTokens : Nat) (slot : SampleSlot) : Decidable (chunk.Computes numTokens slot) :=
  inferInstanceAs (Decidable (_ ∧ _))

/-- What the scheduler and the sampler see to: there is a budget, something is left to
compute and has blocks, and no row has more than one token. -/
structure Prepared (numTokens : Nat) : Prop where
  allowed : 0 < chunk.allowedMaxTokens
  remaining : chunk.kvState.kvCacheTokensNum < numTokens
  blocks : (chunk.querySeqLen numTokens).2 + chunk.kvState.kvCacheTokensNum ≤
    chunk.kvState.currentMaxTokensCapacity
  sampled : ∀ output ∈ chunk.outputs, output.length ≤ 1

end PrefillChunk

/-- A division of a prompt into chunks, of which the last one reaches its end. The
chunks start wherever the matched prefix and the chunks before them leave the cache. -/
structure PromptDivision (numTokens : Nat) where
  before : List PrefillChunk
  last : PrefillChunk
  before_prepared : ∀ chunk ∈ before, chunk.Prepared numTokens
  before_short : ∀ chunk ∈ before,
    chunk.kvState.kvCacheTokensNum + chunk.allowedMaxTokens < numTokens
  last_prepared : last.Prepared numTokens
  last_reaches : numTokens ≤ last.kvState.kvCacheTokensNum + last.allowedMaxTokens

namespace GeneratingSequence

variable (seq : GeneratingSequence)

def addToBatch (allowedMaxTokens : Nat) : Except Check GeneratingSequence := do
  let (finished, seq) ← seq.isFinished
  if finished = false ∧ 0 < allowedMaxTokens then .ok seq else .error .batchInput

def emptyLogprobPlaceholder : SampledToken := { id := seq.tokens.head?.getD 0 }

def appendTokenForSequence (enableChunkedPrefill : Bool) (token : SampledToken) :
    Except Check GeneratingSequence := do
  let seq ← seq.appendToken token
  let queue := seq.preScheduledStepPrefillQueue ++ [false]
  .ok (if enableChunkedPrefill then
    { seq with preScheduledStepPrefillQueue := if 2 < queue.length then queue.tail else queue }
  else seq)

/-- The body of the loop of `process_sample_output`, for a target that is a sample slot. A
slot without an output takes the placeholder. -/
def applyOutput (enableChunkedPrefill : Bool) (outputs : List (List SampledToken))
    (seq : GeneratingSequence) (outputIdx : Nat) : Except Check GeneratingSequence :=
  match outputs[outputIdx]?.getD [] with
  | [] => seq.appendTokenForSequence enableChunkedPrefill seq.emptyLogprobPlaceholder
  | tokens => tokens.foldlM (appendTokenForSequence · enableChunkedPrefill) seq

end GeneratingSequence

namespace SampleRequest

variable (request : SampleRequest) (enableChunkedPrefill : Bool)

def batchEntry (seq : GeneratingSequence) (allowedMaxTokens : Nat) : BatchEntry where
  sequence :=
    { toSequence := seq.toSequence
      sampleSlots := request.sampleSlots
      slotsListed := request.slotsListed }
  allowedMaxTokens := allowedMaxTokens

/-- One step: the batch lists its output targets, the builder puts the tokens of the chunk
into the model input, and the rows of the sampler are applied. -/
def step (seq : GeneratingSequence) (chunk : PrefillChunk) : Except Check GeneratingSequence := do
  let seq ← { seq with kvState := chunk.kvState }.addToBatch chunk.allowedMaxTokens
  let targets ← sequenceTargets (request.batchEntry seq chunk.allowedMaxTokens) chunk.index
  let (_, computed) ← seq.toSequence.processSingleSequence chunk.allowedMaxTokens chunk.cpSize
    chunk.isPrefill
  (List.range' chunk.targetsBefore targets.length).foldlM
    (GeneratingSequence.applyOutput enableChunkedPrefill chunk.outputs)
    { seq with toSequence := computed }

def run (seq : GeneratingSequence) (division : PromptDivision request.numPromptTokens) :
    Except Check GeneratingSequence :=
  (division.before ++ [division.last]).foldlM (request.step enableChunkedPrefill) seq

end SampleRequest

structure WaitingAt (request : GenerationRequest) (seq : GeneratingSequence) : Prop where
  setup : GenerationRequest.Setup request false seq
  stream : seq.Stream request.promptTokens []
  cached : seq.FinishCached
  unfinished : seq.finished = false
  volatile : seq.volatileNumPromptTokens = seq.numPromptTokens

namespace WaitingAt

variable {request : GenerationRequest} {seq : GeneratingSequence}

theorem numTokens (h : WaitingAt request seq) : seq.numTokens = request.promptTokens.length := by
  simpa using h.stream.count

theorem setKvState (h : WaitingAt request seq) (kvState : KVCacheState) :
    WaitingAt request { seq with kvState := kvState } where
  setup := ⟨h.setup.checker, h.setup.overlapping, h.setup.capacity, h.setup.prompt,
    h.setup.logprobs, h.setup.topLogprobs, h.setup.unique⟩
  stream := ⟨h.stream.buffer, h.stream.cursor, h.stream.count, h.stream.negative⟩
  cached := ⟨h.cached.fresh, h.cached.settled⟩
  unfinished := h.unfinished
  volatile := h.volatile

theorem addToBatch (h : WaitingAt request seq) (accepted : request.Accepted)
    {allowedMaxTokens : Nat} (allowed : 0 < allowedMaxTokens) :
    ∃ after, seq.addToBatch allowedMaxTokens = .ok after ∧ WaitingAt request after ∧
      after.toSequence = seq.toSequence := by
  have htokens : seq.tokens = request.promptTokens := by
    simpa using h.stream.tokens
  have hcheck : seq.stoppingChecker.check seq.tokens seq.numPromptTokens = .ok .none := by
    rw [h.setup.checker, htokens, h.setup.prompt]
    exact accepted
  by_cases hvalid : seq.finishStatusInvalidated = false
  · refine ⟨seq, ?_, h, rfl⟩
    have hasked : seq.isFinished = .ok (seq.finished, seq) := if_pos hvalid
    rw [GeneratingSequence.addToBatch, hasked]
    exact if_pos ⟨h.unfinished, allowed⟩
  · let after : GeneratingSequence := { seq with finishStatusInvalidated := false }
    have hasked : seq.isFinished = .ok (false, after) := by
      rw [GeneratingSequence.isFinished, if_neg hvalid, hcheck]
      rfl
    refine ⟨after, ?_, ⟨?_, ?_, ?_, h.unfinished, h.volatile⟩, rfl⟩
    · rw [GeneratingSequence.addToBatch, hasked]
      exact if_pos ⟨rfl, allowed⟩
    · exact ⟨h.setup.checker, h.setup.overlapping, h.setup.capacity, h.setup.prompt,
        h.setup.logprobs, h.setup.topLogprobs, h.setup.unique⟩
    · exact ⟨h.stream.buffer, h.stream.cursor, h.stream.count, h.stream.negative⟩
    · exact ⟨fun _ _ => hcheck, fun hfinished => absurd hfinished (by rw [h.unfinished]; decide)⟩

end WaitingAt

namespace Sequence

variable {seq : Sequence} {allowedMaxTokens cpSize : Nat} {isPrefill : Bool}

theorem le_alignUp (n : Nat) {multiple : Nat} (hpos : 0 < multiple) : n ≤ alignUp n multiple := by
  have hsplit := Nat.div_add_mod (n + multiple - 1) multiple
  have hmod := Nat.mod_lt (n + multiple - 1) hpos
  rw [Nat.mul_comm] at hsplit
  rw [alignUp]
  omega

theorem querySeqLen_padded {q padded : Nat}
    (h : seq.querySeqLen allowedMaxTokens cpSize isPrefill = (q, padded)) :
    q ≤ padded ∧ padded ≤ allowedMaxTokens := by
  obtain ⟨rfl, rfl⟩ := Prod.mk.inj h
  have hbudget : min (subUInt32 seq.numTokens seq.kvState.kvCacheTokensNum) allowedMaxTokens ≤
      allowedMaxTokens := Nat.min_le_right _ _
  split
  · rename_i hcp
    have hup := le_alignUp (min (subUInt32 seq.numTokens seq.kvState.kvCacheTokensNum)
      allowedMaxTokens) (show 0 < cpSize * 2 by omega)
    omega
  · exact ⟨Nat.le_refl _, hbudget⟩

theorem processSingleSequence_prepared (seq : Sequence) {allowedMaxTokens : Nat} (cpSize : Nat)
    (isPrefill : Bool) (allowed : 0 < allowedMaxTokens)
    (remaining : 0 < (seq.querySeqLen allowedMaxTokens cpSize isPrefill).1)
    (blocks : (seq.querySeqLen allowedMaxTokens cpSize isPrefill).2 +
      seq.kvState.kvCacheTokensNum ≤ seq.kvState.currentMaxTokensCapacity) :
    ∃ slots, seq.processSingleSequence allowedMaxTokens cpSize isPrefill =
      .ok (slots, { seq with kvState := { seq.kvState with kvCacheTokensNum :=
        seq.kvState.kvCacheTokensNum + (seq.querySeqLen allowedMaxTokens cpSize
          isPrefill).2 } }) := by
  obtain ⟨q, padded, hlen⟩ : ∃ q padded,
      seq.querySeqLen allowedMaxTokens cpSize isPrefill = (q, padded) := ⟨_, _, rfl⟩
  rw [hlen] at remaining blocks ⊢
  have hpadded : q ≤ padded := (querySeqLen_padded hlen).1
  let kvState : KVCacheState :=
    { seq.kvState with kvCacheTokensNum := seq.kvState.kvCacheTokensNum + padded }
  have hincr : seq.kvState.incrKvCacheTokensNum padded = .ok kvState :=
    if_pos (by omega)
  have hpos : 0 < padded + seq.kvState.kvCacheTokensNum := by omega
  have hroom : padded + seq.kvState.kvCacheTokensNum ≤ kvState.currentMaxTokensCapacity := blocks
  obtain ⟨slots, hslots, -⟩ : ∃ slots, kvState.kvCacheSlots seq.kvState.kvCacheTokensNum
      (padded + seq.kvState.kvCacheTokensNum) = .ok slots ∧ _ :=
    (KVCacheState.kvCacheSlots_ensures hpos hroom).exists_ok
  refine ⟨slots, ?_⟩
  rw [processSingleSequence, hlen]
  simp only
  rw [if_pos ⟨allowed, blocks, remaining⟩, hincr]
  change (kvState.kvCacheSlots _ _ >>= _) = _
  rw [hslots]
  rfl

end Sequence

theorem PrefillChunk.querySeqLen_padded (chunk : PrefillChunk) (numTokens : Nat) :
    (chunk.querySeqLen numTokens).1 ≤ (chunk.querySeqLen numTokens).2 ∧
      (chunk.querySeqLen numTokens).2 ≤ chunk.allowedMaxTokens :=
  Sequence.querySeqLen_padded rfl

theorem PrefillChunk.Prepared.querySeqLen_eq {chunk : PrefillChunk} {numTokens : Nat}
    (h : chunk.Prepared numTokens) :
    (chunk.querySeqLen numTokens).1 =
      min (numTokens - chunk.kvState.kvCacheTokensNum) chunk.allowedMaxTokens := by
  have hle := h.remaining.le
  simp only [PrefillChunk.querySeqLen, Sequence.querySeqLen, Sequence.subUInt32, if_pos hle]

namespace WaitingAt

variable {request : GenerationRequest} {seq : GeneratingSequence}

theorem stage_eq (h : WaitingAt request seq) : seq.stage =
    if seq.kvState.kvCacheTokensNum < request.promptTokens.length then
      if 0 < seq.kvState.kvCacheTokensNum then .chunkedPrefill else .prefill
    else .decode := by
  rw [Sequence.stage, h.volatile, Nat.max_self, h.setup.prompt]

theorem appendToken_early (h : WaitingAt request seq) (token : SampledToken)
    (started : 0 < seq.kvState.kvCacheTokensNum)
    (early : seq.kvState.kvCacheTokensNum < request.promptTokens.length) :
    seq.appendToken token = .error .appendToken := by
  have hroom : seq.numTokens < seq.tokenBuffer.length := by
    rw [h.numTokens, h.setup.capacity, GenerationRequest.seqCapacity]
    omega
  have hstage : seq.stage = .chunkedPrefill := by
    rw [h.stage_eq, if_pos early, if_pos started]
  have hbase : seq.toSequence.appendToken token.id = .error .appendToken :=
    if_neg fun hchecks => hchecks.2.2.2 hstage
  rw [GeneratingSequence.appendToken, if_pos hroom, hbase]
  rfl

theorem applyOutput_early (h : WaitingAt request seq) (enableChunkedPrefill : Bool)
    (outputs : List (List SampledToken)) (outputIdx : Nat)
    (started : 0 < seq.kvState.kvCacheTokensNum)
    (early : seq.kvState.kvCacheTokensNum < request.promptTokens.length) :
    seq.applyOutput enableChunkedPrefill outputs outputIdx = .error .appendToken := by
  have hfirst (token : SampledToken) :
      seq.appendTokenForSequence enableChunkedPrefill token = .error .appendToken := by
    rw [GeneratingSequence.appendTokenForSequence, h.appendToken_early token started early]
    rfl
  rw [GeneratingSequence.applyOutput]
  cases outputs[outputIdx]?.getD [] with
  | nil => exact hfirst _
  | cons token tokens =>
      change List.foldlM _ seq (token :: tokens) = _
      rw [foldlM_cons, hfirst]
      rfl

theorem plainAt (h : WaitingAt request seq) (nonempty : request.promptTokens ≠ [])
    (computed : request.promptTokens.length ≤ seq.kvState.kvCacheTokensNum) :
    GenerationRequest.PlainAt request seq request.promptTokens where
  setup := h.setup
  buffer := by simpa using h.stream.buffer
  count := h.numTokens
  unfinished := h.unfinished
  started := by
    rw [h.setup.prompt]
    exact List.length_pos_iff.mpr nonempty
  prompt := h.setup.prompt.le
  volatile := h.volatile
  computed := by
    rw [h.setup.prompt]
    exact computed

end WaitingAt

namespace GenerationRequest

variable {request : GenerationRequest} {plain : GeneratingSequence} {valid : List Token}

theorem PlainAt.appendTokenForSequence (h : PlainAt request plain valid)
    (enableChunkedPrefill : Bool) (token : SampledToken)
    (room : valid.length < request.seqCapacity false) :
    ∃ after, plain.appendTokenForSequence enableChunkedPrefill token = .ok after ∧
      PlainAt request after (valid ++ [token.id]) := by
  obtain ⟨after, happend, hafter, -⟩ := h.appendToken token room
  rw [GeneratingSequence.appendTokenForSequence, happend]
  refine ⟨_, rfl, ?_⟩
  split
  · constructor
    · exact ⟨hafter.setup.checker, hafter.setup.overlapping, hafter.setup.capacity,
        hafter.setup.prompt, hafter.setup.logprobs, hafter.setup.topLogprobs, hafter.setup.unique⟩
    · exact hafter.buffer
    · exact hafter.count
    · exact hafter.unfinished
    · exact hafter.started
    · exact hafter.prompt
    · exact hafter.volatile
    · exact hafter.computed
  · exact hafter

theorem PlainAt.applyOutput (h : PlainAt request plain valid) (enableChunkedPrefill : Bool)
    {outputs : List (List SampledToken)} (sampled : ∀ output ∈ outputs, output.length ≤ 1)
    (outputIdx : Nat) (room : valid.length < request.seqCapacity false) :
    ∃ after token, plain.applyOutput enableChunkedPrefill outputs outputIdx = .ok after ∧
      PlainAt request after (valid ++ [token]) := by
  have hone : (outputs[outputIdx]?.getD []).length ≤ 1 := by
    cases houtput : outputs[outputIdx]? with
    | none => exact Nat.zero_le 1
    | some output => exact sampled output (mem_of_getElem? houtput)
  rw [GeneratingSequence.applyOutput]
  match outputs[outputIdx]?.getD [], hone with
  | [], _ =>
      obtain ⟨after, happend, hafter⟩ :=
        h.appendTokenForSequence enableChunkedPrefill plain.emptyLogprobPlaceholder room
      exact ⟨after, _, happend, hafter⟩
  | [token], _ =>
      obtain ⟨after, happend, hafter⟩ := h.appendTokenForSequence enableChunkedPrefill token room
      refine ⟨after, token.id, ?_, hafter⟩
      change List.foldlM _ plain [token] = _
      rw [foldlM_cons, happend]
      rfl

theorem PlainAt.applyOutputs (h : PlainAt request plain valid) (enableChunkedPrefill : Bool)
    {outputs : List (List SampledToken)} (sampled : ∀ output ∈ outputs, output.length ≤ 1)
    (outputIdxes : List Nat)
    (room : valid.length + outputIdxes.length ≤ request.seqCapacity false) :
    ∃ after tokens, outputIdxes.foldlM
        (GeneratingSequence.applyOutput enableChunkedPrefill outputs) plain = .ok after ∧
      PlainAt request after (valid ++ tokens) ∧ tokens.length = outputIdxes.length := by
  induction outputIdxes generalizing plain valid with
  | nil => exact ⟨plain, [], rfl, by rwa [append_nil], rfl⟩
  | cons outputIdx rest ih =>
      rw [length_cons] at room
      obtain ⟨next, token, hnext, hplain⟩ :=
        h.applyOutput enableChunkedPrefill sampled outputIdx (by omega)
      obtain ⟨after, tokens, hrest, hafter, hlength⟩ := ih hplain (by
        rw [length_append, length_singleton]
        omega)
      refine ⟨after, token :: tokens, ?_, ?_, congrArg Nat.succ hlength⟩
      · rw [foldlM_cons, hnext]
        exact hrest
      · rwa [append_assoc] at hafter

end GenerationRequest

namespace SampleRequest

variable {request : SampleRequest} {seq : GeneratingSequence} {chunk : PrefillChunk}
variable (enableChunkedPrefill : Bool)

def slotsIn (request : SampleRequest) (chunk : PrefillChunk) : Nat :=
  (request.sampleSlots.filter (chunk.Computes request.numPromptTokens)).length

theorem querySeqLen_waiting (h : seq.numTokens = request.numPromptTokens)
    (hkv : seq.kvState = chunk.kvState) :
    seq.querySeqLen chunk.allowedMaxTokens chunk.cpSize chunk.isPrefill =
      chunk.querySeqLen request.numPromptTokens := by
  simp only [PrefillChunk.querySeqLen, Sequence.querySeqLen, h, hkv]

theorem sequenceTargets_length (hcount : seq.numTokens = request.numPromptTokens)
    (hkv : seq.kvState = chunk.kvState) (prepared : chunk.Prepared request.numPromptTokens) :
    ∃ targets, sequenceTargets (request.batchEntry seq chunk.allowedMaxTokens) chunk.index =
      .ok targets ∧ targets.length = request.slotsIn chunk := by
  have hremaining := prepared.remaining
  have hallowed := prepared.allowed
  let listed := (request.sampleSlots.filter fun slot =>
    chunk.kvState.kvCacheTokensNum ≤ slot.sourcePosition &&
      slot.sourcePosition < min (request.numPromptTokens - chunk.kvState.kvCacheTokensNum)
        chunk.allowedMaxTokens + chunk.kvState.kvCacheTokensNum).map
    fun slot => (⟨chunk.index, slot.sampleId, true⟩ : OutputTarget)
  refine ⟨listed, ?_, ?_⟩
  · rw [sequenceTargets]
    simp only [batchEntry, hcount, hkv]
    rw [if_neg (by omega), if_neg (by omega), if_neg request.nonempty]
  · rw [length_map]
    congr 1
    refine filter_congr fun slot _ => ?_
    rw [← prepared.querySeqLen_eq, Nat.add_comm (chunk.querySeqLen _).1]
    exact (Bool.decide_and _ _).symm

theorem step_eq (h : WaitingAt request.generation seq) (accepted : request.generation.Accepted)
    (prepared : chunk.Prepared request.numPromptTokens) :
    ∃ after, request.step enableChunkedPrefill seq chunk =
        (List.range' chunk.targetsBefore (request.slotsIn chunk)).foldlM
          (GeneratingSequence.applyOutput enableChunkedPrefill chunk.outputs) after ∧
      WaitingAt request.generation after ∧ after.kvState.kvCacheTokensNum =
        chunk.kvState.kvCacheTokensNum + (chunk.querySeqLen request.numPromptTokens).2 := by
  obtain ⟨added, hadd, hadded, hsame⟩ :=
    (h.setKvState chunk.kvState).addToBatch accepted prepared.allowed
  have hkv : added.kvState = chunk.kvState := congrArg Sequence.kvState hsame
  have hcount : added.numTokens = request.numPromptTokens := hadded.numTokens
  have hquery := querySeqLen_waiting hcount hkv
  have hlen := prepared.querySeqLen_eq
  have hremaining := prepared.remaining
  have hallowed := prepared.allowed
  obtain ⟨targets, htargets, hlength⟩ := sequenceTargets_length hcount hkv prepared
  obtain ⟨slots, hbuilt⟩ := Sequence.processSingleSequence_prepared
    added.toSequence chunk.cpSize chunk.isPrefill prepared.allowed
    (by rw [hquery]; omega) (by rw [hquery, hkv]; exact prepared.blocks)
  let computed : KVCacheState := { added.kvState with kvCacheTokensNum :=
    added.kvState.kvCacheTokensNum + (added.querySeqLen chunk.allowedMaxTokens chunk.cpSize
      chunk.isPrefill).2 }
  refine ⟨{ added with kvState := computed }, ?_, hadded.setKvState computed, ?_⟩
  · rw [step, hadd]
    change (sequenceTargets _ _ >>= _) = _
    rw [htargets]
    rw [hbuilt, ← hlength]
    rfl
  · change added.kvState.kvCacheTokensNum + _ = _
    rw [hquery, hkv]

theorem length_le_effectiveMaxTokens (request : SampleRequest) :
    request.sampleSlots.length ≤ request.generation.effectiveMaxTokens.toNat := by
  have hlt := buildSampleSlots_length request.counted request.built
  have hcount : (UInt32.ofNat request.sampleSlots.length).toNat = request.sampleSlots.length := by
    rw [UInt32.toNat_ofNat', Nat.mod_eq_of_lt hlt]
  change _ ≤ (if true = true ∧ (1 : UInt32) < UInt32.ofNat request.sampleSlots.length then
    UInt32.ofNat request.sampleSlots.length else 1).toNat
  split
  · exact hcount.ge
  · rename_i hmax
    have hle : UInt32.ofNat request.sampleSlots.length ≤ 1 := by
      rw [← UInt32.not_lt]
      exact fun hlt => hmax ⟨rfl, hlt⟩
    rw [← hcount]
    exact UInt32.le_iff_toNat_le.mp hle

theorem slotsIn_le (request : SampleRequest) (chunk : PrefillChunk) :
    request.slotsIn chunk ≤ request.sampleSlots.length :=
  length_filter_le _ _

theorem slotsIn_eq_zero : request.slotsIn chunk = 0 ↔
    ∀ slot ∈ request.sampleSlots, ¬chunk.Computes request.numPromptTokens slot := by
  rw [slotsIn]
  simp

theorem slotsIn_eq_length : request.slotsIn chunk = request.sampleSlots.length ↔
    ∀ slot ∈ request.sampleSlots, chunk.Computes request.numPromptTokens slot := by
  rw [slotsIn]
  simp

theorem step_idle (h : WaitingAt request.generation seq) (accepted : request.generation.Accepted)
    (prepared : chunk.Prepared request.numPromptTokens) (idle : request.slotsIn chunk = 0) :
    ∃ after, request.step enableChunkedPrefill seq chunk = .ok after ∧
      WaitingAt request.generation after := by
  obtain ⟨after, hstep, hafter, -⟩ :=
    step_eq enableChunkedPrefill h accepted prepared
  refine ⟨after, ?_, hafter⟩
  rw [hstep, idle]
  rfl

theorem step_early (h : WaitingAt request.generation seq) (accepted : request.generation.Accepted)
    (prepared : chunk.Prepared request.numPromptTokens)
    (short : chunk.kvState.kvCacheTokensNum + chunk.allowedMaxTokens < request.numPromptTokens)
    (slots : request.slotsIn chunk ≠ 0) :
    request.step enableChunkedPrefill seq chunk = .error .appendToken := by
  obtain ⟨after, hstep, hafter, hkv⟩ :=
    step_eq enableChunkedPrefill h accepted prepared
  have hlen := prepared.querySeqLen_eq
  have hpadded := chunk.querySeqLen_padded request.numPromptTokens
  have hallowed := prepared.allowed
  obtain ⟨n, hn⟩ := Nat.exists_eq_succ_of_ne_zero slots
  have habort := hafter.applyOutput_early enableChunkedPrefill chunk.outputs chunk.targetsBefore
    (by omega) (by rw [hkv]; change _ < request.numPromptTokens; omega)
  rw [hstep, hn, range'_succ, foldlM_cons, habort]
  rfl

theorem step_last (h : WaitingAt request.generation seq) (accepted : request.generation.Accepted)
    (nonempty : request.generation.promptTokens ≠ [])
    (prepared : chunk.Prepared request.numPromptTokens)
    (reaches : request.numPromptTokens ≤
      chunk.kvState.kvCacheTokensNum + chunk.allowedMaxTokens) :
    ∃ after, request.step enableChunkedPrefill seq chunk = .ok after ∧
      after.numTokens = request.numPromptTokens + request.slotsIn chunk := by
  obtain ⟨computed, hstep, hcomputed, hkv⟩ :=
    step_eq enableChunkedPrefill h accepted prepared
  have hlen := prepared.querySeqLen_eq
  have hpadded := chunk.querySeqLen_padded request.numPromptTokens
  have hplain := hcomputed.plainAt nonempty (by
    change request.numPromptTokens ≤ _
    omega)
  have hroom : request.generation.promptTokens.length +
      (List.range' chunk.targetsBefore (request.slotsIn chunk)).length ≤
        request.generation.seqCapacity false := by
    have hslots := request.slotsIn_le chunk
    have hmax := request.length_le_effectiveMaxTokens
    rw [length_range', GenerationRequest.seqCapacity]
    omega
  obtain ⟨after, tokens, hrun, hafter, hlength⟩ :=
    hplain.applyOutputs enableChunkedPrefill prepared.sampled _ hroom
  refine ⟨after, hstep.trans hrun, ?_⟩
  rw [hafter.count, length_append, hlength, length_range']
  rfl

/-- The chunks before the last one pass when no slot lies in them, and abort otherwise. -/
theorem run_before (h : WaitingAt request.generation seq) (accepted : request.generation.Accepted)
    {before : List PrefillChunk}
    (prepared : ∀ chunk ∈ before, chunk.Prepared request.numPromptTokens)
    (short : ∀ chunk ∈ before,
      chunk.kvState.kvCacheTokensNum + chunk.allowedMaxTokens < request.numPromptTokens) :
    if ∀ chunk ∈ before, request.slotsIn chunk = 0 then
      ∃ after, before.foldlM (request.step enableChunkedPrefill) seq = .ok after ∧
        WaitingAt request.generation after
    else before.foldlM (request.step enableChunkedPrefill) seq = .error .appendToken := by
  induction before generalizing seq with
  | nil =>
      exact ⟨seq, rfl, h⟩
  | cons chunk before ih =>
      obtain ⟨hprepared, hprepared'⟩ := List.forall_mem_cons.mp prepared
      obtain ⟨hshort, hshort'⟩ := List.forall_mem_cons.mp short
      rw [foldlM_cons]
      by_cases hidle : request.slotsIn chunk = 0
      · obtain ⟨next, hstep, hnext⟩ :=
          step_idle enableChunkedPrefill h accepted hprepared hidle
        have hrest := ih hnext hprepared' hshort'
        have hall : (∀ c ∈ chunk :: before, request.slotsIn c = 0) ↔
            ∀ c ∈ before, request.slotsIn c = 0 := by
          rw [forall_mem_cons]
          exact and_iff_right hidle
        rw [hstep]
        simp only [hall]
        exact hrest
      · rw [if_neg fun hall => hidle (hall chunk mem_cons_self),
          step_early enableChunkedPrefill h accepted hprepared hshort hidle]
        rfl

/-- Every slot has its source in the last chunk, and none in a chunk before it. -/
def OnlyInLast (request : SampleRequest) (division : PromptDivision request.numPromptTokens) :
    Prop :=
  (∀ slot ∈ request.sampleSlots, division.last.Computes request.numPromptTokens slot) ∧
    ∀ chunk ∈ division.before, ∀ slot ∈ request.sampleSlots,
      ¬chunk.Computes request.numPromptTokens slot

theorem waitingAt_newSequence (created : request.generation.newSequence false = .ok seq) :
    WaitingAt request.generation seq ∧ request.generation.promptTokens ≠ [] := by
  obtain ⟨hne, -, hsetup, hstream, hcached, -, hunfinished, -, -, hvolatile, -, -⟩ :=
    GenerationRequest.newSequence_eq_ok created
  exact ⟨⟨hsetup, hstream, hcached, hunfinished, hvolatile⟩, hne⟩

/-- The steps of a prompt append a token for each slot without a failed check exactly when
all slots have their source in the last chunk only. -/
theorem run_takes_slots (accepted : request.generation.Accepted)
    (created : request.generation.newSequence false = .ok seq)
    (division : PromptDivision request.numPromptTokens) :
    Ensures (request.run enableChunkedPrefill seq division)
        (fun e => e ≠ .appendToken ∧ e ≠ .tokenCapacity)
        (fun after => after.numTokens = request.numPromptTokens + request.sampleSlots.length) ↔
      request.OnlyInLast division := by
  obtain ⟨hwaiting, hne⟩ := waitingAt_newSequence created
  have hbefore := run_before enableChunkedPrefill hwaiting accepted
    division.before_prepared division.before_short
  rw [run, foldlM_append]
  simp only [OnlyInLast, ← slotsIn_eq_zero, ← slotsIn_eq_length]
  split at hbefore
  · rename_i hidle
    obtain ⟨before, hrun, hbefore⟩ := hbefore
    obtain ⟨after, hlast, hcount⟩ := step_last enableChunkedPrefill
      hbefore accepted hne division.last_prepared division.last_reaches
    rw [hrun]
    change Ensures (List.foldlM _ before [division.last]) _ _ ↔ _
    rw [foldlM_cons]
    rw [hlast]
    change after.numTokens = _ ↔ _
    rw [hcount, Nat.add_left_cancel_iff]
    exact (and_iff_left hidle).symm
  · rename_i hslots
    rw [hbefore]
    constructor
    · exact fun h => absurd rfl h.1
    · exact fun h => absurd h.2 hslots

end SampleRequest

def literalTokenizer : Tokenizer where
  tokenToId text := if text = "<a>" then some 7 else none
  idToToken token := if token = 7 then "<a>" else ""
  encode text := if text = "<a>" then some [7] else some [1, 7, 2, 3]

theorem literalTokenizer_counted :
    ∀ tokens ∈ literalTokenizer.encode "b<a>cd", tokens.length < 2 ^ 32 := by
  intro tokens htokens
  obtain rfl := Option.some.inj htokens
  decide

/-- A prompt with one occurrence of the literal. The logits of its slot come from the
first token. -/
def literalRequest : SampleRequest where
  requestId := "r"
  prompt := "b<a>cd"
  literal := "<a>"
  tokenizer := literalTokenizer
  settings := { promptTokens := [1, 7, 2, 3] }
  sampleSlots := [⟨"r", 0, 1⟩]
  built := by decide
  nonempty := by decide
  counted := literalTokenizer_counted

/-- A step on some of the tokens of the prompt, with blocks of two tokens. -/
def literalChunk (computed allowedMaxTokens : Nat) : PrefillChunk where
  kvState :=
    { kvCacheTokensNum := computed
      blocks := [{ id := 1, size := 2 }, { id := 2, size := 2 }] }
  allowedMaxTokens := allowedMaxTokens
  outputs := [[{ id := 9 }]]

theorem literalChunk_prepared : ∀ p ∈ [(0, 2), (2, 2)], (literalChunk p.1 p.2).Prepared 4 := by
  intro p hp
  simp only [mem_cons, not_mem_nil, or_false] at hp
  obtain rfl | rfl := hp
  · exact ⟨by decide, by decide, by decide, List.forall_mem_singleton.mpr (by decide)⟩
  · exact ⟨by decide, by decide, by decide, List.forall_mem_singleton.mpr (by decide)⟩

def twoHalves : PromptDivision literalRequest.numPromptTokens where
  before := [literalChunk 0 2]
  last := literalChunk 2 2
  before_prepared := List.forall_mem_singleton.mpr (literalChunk_prepared (0, 2) (by decide))
  before_short := List.forall_mem_singleton.mpr (by decide)
  last_prepared := literalChunk_prepared (2, 2) (by decide)
  last_reaches := by decide

def matchedHalf : PromptDivision literalRequest.numPromptTokens where
  before := []
  last := literalChunk 2 2
  before_prepared := forall_mem_nil _
  before_short := forall_mem_nil _
  last_prepared := literalChunk_prepared (2, 2) (by decide)
  last_reaches := by decide

/-- The literal occurs twice at the end of the prompt. -/
def literalPair : SampleRequest where
  requestId := "r"
  prompt := "bcd<a><a>"
  literal := "<a>"
  tokenizer :=
    { literalTokenizer with encode := fun text =>
        if text = "<a>" then some [7] else some [1, 2, 3, 7, 7] }
  settings := { promptTokens := [1, 2, 3, 7, 7] }
  sampleSlots := [⟨"r", 0, 3⟩, ⟨"r", 1, 4⟩]
  built := by decide
  nonempty := by decide
  counted tokens htokens := by
    obtain rfl := Option.some.inj htokens
    decide

/-- The second step samples both slots. -/
def pairChunk (computed allowedMaxTokens : Nat) : PrefillChunk where
  kvState :=
    { kvCacheTokensNum := computed
      blocks := [{ id := 1, size := 2 }, { id := 2, size := 2 }, { id := 3, size := 2 }] }
  allowedMaxTokens := allowedMaxTokens
  outputs := [[{ id := 9 }], [{ id := 8 }]]

theorem pairChunk_prepared : ∀ p ∈ [(0, 2), (2, 3)], (pairChunk p.1 p.2).Prepared 5 := by
  intro p hp
  simp only [mem_cons, not_mem_nil, or_false] at hp
  obtain rfl | rfl := hp
  · exact ⟨by decide, by decide, by decide, by decide⟩
  · exact ⟨by decide, by decide, by decide, by decide⟩

def slotsLast : PromptDivision literalPair.numPromptTokens where
  before := [pairChunk 0 2]
  last := pairChunk 2 3
  before_prepared := List.forall_mem_singleton.mpr (pairChunk_prepared (0, 2) (by decide))
  before_short := List.forall_mem_singleton.mpr (by decide)
  last_prepared := pairChunk_prepared (2, 3) (by decide)
  last_reaches := by decide

/-- Two chunks of a prompt with two slots. -/
theorem SampleRequest.run_takes_slots_two_chunks :
    ∃ seq, literalPair.generation.newSequence false = .ok seq ∧
      Ensures (literalPair.run true seq slotsLast)
        (fun e => e ≠ .appendToken ∧ e ≠ .tokenCapacity) (fun after => after.numTokens = 5 + 2) :=
  ⟨_, rfl, (SampleRequest.run_takes_slots true (by decide) rfl slotsLast).mpr
    ⟨by decide, by decide⟩⟩

/-- A slot in the first half makes the engine abort; behind a matched prefix it gets no
token. -/
theorem early_slot_aborts :
    literalRequest.generation.Accepted ∧
    Ensures (literalRequest.generation.newSequence false >>= fun seq =>
        literalRequest.run true seq twoHalves)
      (fun e => e = .appendToken) (fun _ => False) ∧
    Ensures (literalRequest.generation.newSequence false >>= fun seq =>
        literalRequest.run true seq matchedHalf)
      (fun _ => False) (fun after => after.numTokens = literalRequest.numPromptTokens) ∧
    literalRequest.sampleSlots.length = 1 := by
  decide +kernel

end Xllm
