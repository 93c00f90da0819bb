import Xllm.Request.Generation

/-!
# Schedule overlap

With `enable_schedule_overlap` the scheduler prepares and starts the next step
before it has the tokens of the step that runs. The loop of
`step_with_schedule_overlap` is followed here for one sequence. In each round the
batch of the new step appends a fake token to it, when it is a target of that
batch, and then the results of the last batch replace the fake token of that one.
Speculative decoding may return several tokens for one fake token.

Between the rounds the scheduler is free to give the sequence any blocks, to preempt
it and to leave it out of a batch, and the request may be cancelled at any time.
`/v1/sample`, embedding, recommendation and prefill-only instances refuse or switch
off schedule overlap.

The model keeps a log of the calls of `append_token` and `update_last_step_token`
with the sequence after each call.
-/

namespace Xllm

open Contract List

/-- What `LLMMaster::generate_request` makes of a request. -/
structure GenerationRequest where
  promptTokens : List Token
  maxTokens : UInt32 := 0
  isSampleRequest : Bool := false
  numSampleSlots : UInt32 := 0
  numSpeculativeTokens : Nat := 0
  maxContextLen : Int := 0
  eosToken : Token := -1
  ignoreEos : Bool := false
  stopTokens : List Token := []
  stopSequences : List (List Token) := []
  logprobs : Bool := false
  topLogprobs : Nat := 0
  needUniqueTokens : Bool := false
  beamWidth : Nat := 0

namespace GenerationRequest

variable (request : GenerationRequest)

def effectiveMaxTokens : UInt32 :=
  let maxTokens := if request.maxTokens = 0 then 5120 else request.maxTokens
  if request.isSampleRequest = true ∧ maxTokens < request.numSampleSlots then
    request.numSampleSlots
  else maxTokens

def seqCapacity (enableScheduleOverlap : Bool) : Nat :=
  request.promptTokens.length + request.effectiveMaxTokens.toNat +
    request.numSpeculativeTokens + 1 +
    if enableScheduleOverlap then request.numSpeculativeTokens + 1 else 0

/-- The stopping checker of the request; its context length is a `size_t`. -/
def stoppingChecker : StoppingChecker where
  maxGeneratedTokens := request.effectiveMaxTokens.toNat
  maxContextLen := ((request.maxContextLen - request.numSpeculativeTokens) % 2 ^ 64).toNat
  eosToken := request.eosToken
  ignoreEos := request.ignoreEos
  stopTokens := request.stopTokens
  stopSequences := request.stopSequences

def Accepted : Prop :=
  request.stoppingChecker.check request.promptTokens request.promptTokens.length = .ok .none

instance : Decidable request.Accepted :=
  inferInstanceAs (Decidable (_ = _))

/-- `token_to_count_map_` of a new sequence. -/
def initialCounts : Token → Option Int := fun token =>
  if (request.needUniqueTokens = true ∧ token ∈ request.promptTokens) ∨
      request.promptTokens.getLast? = some token then some 0
  else .none

def newSequence (enableScheduleOverlap : Bool) : Except Check GeneratingSequence := do
  let base ← Sequence.create request.promptTokens (request.seqCapacity enableScheduleOverlap)
    request.beamWidth
  .ok {
    toSequence := base
    stoppingChecker := request.stoppingChecker
    enableScheduleOverlap := enableScheduleOverlap
    logprobs := request.logprobs
    topLogprobs := request.topLogprobs
    needUniqueTokens := request.needUniqueTokens
    tokenToCountMap := request.initialCounts
    curGeneratedTokenIdx := base.numPromptTokens }

/-- The sequence without overlap, after its prefill and the given tokens. -/
def plainRun (tokens : List SampledToken) : Except Check GeneratingSequence := do
  let seq ← request.newSequence false
  let computed := { seq with kvState := seq.kvState.setKvCacheTokensNum seq.numTokens }
  tokens.foldlM GeneratingSequence.appendToken computed

end GenerationRequest

/-- A call that the batch makes on the sequence. An update carries the number of
blocks that the sequence has when it is called. -/
inductive TokenCall where
  | append (token : SampledToken)
  | update (token : SampledToken) (tokenOffset numKvBlocks : Nat)
  deriving DecidableEq

/-- The real token of a call. A preempted sequence keeps the first token of a step
only. -/
def TokenCall.realToken : TokenCall → Option SampledToken
  | .append _ => .none
  | .update token tokenOffset numKvBlocks =>
      if 0 < tokenOffset ∧ numKvBlocks = 0 then .none else some token

def realTokens (calls : List TokenCall) : List SampledToken := calls.filterMap TokenCall.realToken

/-- The sequence between two rounds of the loop. -/
structure OverlapState where
  seq : GeneratingSequence
  isTarget : Bool := false
  log : List (TokenCall × GeneratingSequence) := []

/-- A token of a step's result, and whether the request is cancelled just before the
batch reads it. -/
structure RowToken where
  token : SampledToken
  cancel : Bool := false
  deriving DecidableEq

namespace OverlapState

variable (enableChunkedPrefill : Bool) (s : OverlapState)

def calls : List TokenCall := s.log.map Prod.fst

def cancelIf (cancel : Bool) : OverlapState :=
  { s with seq := { s.seq with cancelled := s.seq.cancelled || cancel } }

def logged (call : TokenCall) (seq : GeneratingSequence) : OverlapState :=
  { s with seq := seq, log := s.log ++ [(call, seq)] }

def setQueue (queue : List Bool) : OverlapState :=
  { s with seq := { s.seq with preScheduledStepPrefillQueue := queue } }

/-- Push to `pre_scheduled_step_prefill_queue`, which keeps two elements. -/
def pushStage (isPrefill : Bool) : OverlapState :=
  let queue := s.seq.preScheduledStepPrefillQueue ++ [isPrefill]
  s.setQueue (if 2 < queue.length then queue.tail else queue)

/-- Pop from `pre_scheduled_step_prefill_queue`, which must not be empty. -/
def popStage : Except Check OverlapState :=
  match s.seq.preScheduledStepPrefillQueue with
  | [] => .error .outOfBounds
  | _ :: queue => .ok (s.setQueue queue)

def appendTokenForSequence (token : SampledToken) (tokenIdx : Nat) (replaceFakeToken : Bool) :
    Except Check OverlapState :=
  if replaceFakeToken = false then do
    let seq ← s.seq.appendToken token
    let s := s.logged (.append token) seq
    .ok (if enableChunkedPrefill then s.pushStage false else s)
  else if s.seq.cancelled = false then do
    let seq ← s.seq.updateLastStepToken token tokenIdx
    let s := s.logged (.update token tokenIdx s.seq.kvState.numKvBlocks) seq
    if enableChunkedPrefill = true ∧ tokenIdx = 0 then s.popStage else .ok s
  else .ok s

/-- `update_sequence_state`: whether the step was a prefill that samples nothing. -/
def updateSequenceState (replaceFakeToken : Bool) : Except Check (Bool × OverlapState) :=
  if enableChunkedPrefill then
    if replaceFakeToken = false ∧ s.seq.stage = .chunkedPrefill then .ok (true, s.pushStage true)
    else if replaceFakeToken = true then
      match s.seq.preScheduledStepPrefillQueue with
      | [] => .error .outOfBounds
      | true :: queue => .ok (true, s.setQueue queue)
      | false :: _ => .ok (false, s)
    else .ok (false, s)
  else .ok (false, s)

/-- Ask `finished`, and keep the cached answer. -/
def askFinished : Except Check (Bool × OverlapState) := do
  let (finished, seq) ← s.seq.isFinished
  .ok (finished, { s with seq := seq })

/-- The loop of `process_sample_output` over the tokens of one output. -/
def processRow (replaceFakeToken : Bool) :
    Nat → List RowToken → OverlapState → Except Check OverlapState
  | _, [], s => .ok s
  | tokenIdx, entry :: row, s => do
      let s ← (s.cancelIf entry.cancel).appendTokenForSequence enableChunkedPrefill entry.token
        tokenIdx replaceFakeToken
      let (finished, s) ← s.askFinished
      if finished then .ok s else processRow replaceFakeToken (tokenIdx + 1) row s

def processSampleOutput (row : List RowToken) (replaceFakeToken : Bool) :
    Except Check OverlapState := do
  let (finished, s) ← s.askFinished
  if finished then .ok s
  else do
    let (skipped, s) ← s.updateSequenceState enableChunkedPrefill replaceFakeToken
    if skipped then .ok s else processRow enableChunkedPrefill replaceFakeToken 0 row s

end OverlapState

/-- What one round of the loop finds. -/
structure OverlapRound where
  cancel : Bool := false
  preempted : Bool := false
  kvState : KVCacheState := {}
  fake : Option SampledToken := .none
  /-- The output of the last step, if the sequence was a target of its batch. -/
  row : List RowToken := []

/-- What the workers return: one negative id for each row of a step that runs, and at
least one token for each row of a step that has ended. -/
structure OverlapRound.WellFormed (round : OverlapRound) : Prop where
  fake : ∀ token, round.fake = some token → token.id < 0
  row_ne_nil : round.row ≠ []
  row : ∀ entry ∈ round.row, ¬entry.token.id < 0

namespace OverlapState

variable (enableChunkedPrefill : Bool) (s : OverlapState)

def prepareBatch (round : OverlapRound) : OverlapState :=
  let s := s.cancelIf round.cancel
  { s with seq := { s.seq with
    kvState := round.kvState
    volatileNumPromptTokens :=
      if round.preempted then s.seq.numTokens else s.seq.volatileNumPromptTokens } }

/-- `Engine::step` on the new batch, of which the sequence may be a target. -/
def engineStep (fake : Option SampledToken) : Except Check OverlapState :=
  match fake with
  | .none => .ok s
  | some token => s.processSampleOutput enableChunkedPrefill [{ token := token }] false

def updateLastStepResult (row : List RowToken) : Except Check OverlapState :=
  if s.isTarget then s.processSampleOutput enableChunkedPrefill row true else .ok s

/-- `step_with_schedule_overlap`. Finished and cancelled requests are not scheduled. -/
def step (round : OverlapRound) : Except Check OverlapState := do
  let (finished, s) ← (s.prepareBatch round).askFinished
  let fake := if finished = true ∨ s.seq.cancelled = true then .none else round.fake
  let s ← s.engineStep enableChunkedPrefill fake
  let s ← s.updateLastStepResult enableChunkedPrefill round.row
  .ok { s with isTarget := fake.isSome }

end OverlapState

namespace GenerationRequest

variable {request : GenerationRequest}

/-- What stays as the request has set it up. -/
structure Setup (request : GenerationRequest) (overlap : Bool) (seq : GeneratingSequence) :
    Prop where
  checker : seq.stoppingChecker = request.stoppingChecker
  overlapping : seq.enableScheduleOverlap = overlap
  capacity : seq.tokenBuffer.length = request.seqCapacity overlap
  prompt : seq.numPromptTokens = request.promptTokens.length
  logprobs : seq.logprobs = request.logprobs
  topLogprobs : seq.topLogprobs = request.topLogprobs
  unique : seq.needUniqueTokens = request.needUniqueTokens

theorem Setup.trans {overlap : Bool} {before after : GeneratingSequence}
    (h : Setup request overlap before) (same : GeneratingSequence.SameSetup before after) :
    Setup request overlap after where
  checker := same.checker.trans h.checker
  overlapping := same.overlap.trans h.overlapping
  capacity := same.capacity.trans h.capacity
  prompt := same.prompt.trans h.prompt
  logprobs := same.logprobs.trans h.logprobs
  topLogprobs := same.topLogprobs.trans h.topLogprobs
  unique := same.unique.trans h.unique

theorem Setup.recordToken {overlap overlap' : Bool} {a b : GeneratingSequence}
    (ha : Setup request overlap a) (hb : Setup request overlap' b)
    (same : GeneratingSequence.SameRecord a b) (index : Nat) (token : SampledToken) :
    GeneratingSequence.SameRecord (a.recordToken index token) (b.recordToken index token) := by
  obtain ⟨hcounts, hlogprobs⟩ := same
  constructor
  · simp only [GeneratingSequence.recordToken, ha.unique, hb.unique, hcounts]
  · simp only [GeneratingSequence.recordToken, ha.logprobs, hb.logprobs, ha.topLogprobs,
      hb.topLogprobs, hlogprobs]

theorem effectiveMaxTokens_pos : 0 < request.effectiveMaxTokens.toNat := by
  have hmax : 0 < (if request.maxTokens = 0 then 5120 else request.maxTokens).toNat := by
    split
    · decide
    · rename_i hne
      refine Nat.pos_of_ne_zero fun hzero => hne ?_
      exact UInt32.toNat_inj.mp hzero
  rw [effectiveMaxTokens]
  generalize (if request.maxTokens = 0 then 5120 else request.maxTokens) = maxTokens at hmax ⊢
  split
  · rename_i hslots
    exact Nat.lt_of_le_of_lt (Nat.zero_le _) (UInt32.lt_iff_toNat_lt.mp hslots.2)
  · exact hmax

/-- The sequence without overlap holds the tokens `valid` and can take another one. -/
structure PlainAt (request : GenerationRequest) (plain : GeneratingSequence) (valid : List Token) :
    Prop where
  setup : Setup request false plain
  buffer : ∃ rest, plain.tokenBuffer = valid ++ rest
  count : plain.numTokens = valid.length
  unfinished : plain.finished = false
  started : 0 < plain.numPromptTokens
  prompt : plain.numPromptTokens ≤ valid.length
  volatile : plain.volatileNumPromptTokens = plain.numPromptTokens
  computed : plain.numPromptTokens ≤ plain.kvState.kvCacheTokensNum

variable {plain : GeneratingSequence}

theorem PlainAt.tokens {valid : List Token}
    (h : PlainAt request plain valid) : plain.tokens = valid := by
  obtain ⟨rest, hbuffer⟩ := h.buffer
  rw [Sequence.tokens, hbuffer, h.count, take_left' rfl]

theorem PlainAt.appendToken {valid : List Token}
    (token : SampledToken) (h : PlainAt request plain valid)
    (room : valid.length < request.seqCapacity false) :
    ∃ after, plain.appendToken token = .ok after ∧ PlainAt request after (valid ++ [token.id]) ∧
      GeneratingSequence.SameRecord (plain.recordToken valid.length token) after := by
  obtain ⟨rest, hbuffer⟩ := h.buffer
  have hcapacity := h.setup.capacity
  have decoding : plain.stage ≠ .chunkedPrefill := by
    rw [Sequence.stage, if_neg]
    · exact fun hstage => (nomatch hstage)
    · rw [h.volatile, Nat.max_self]
      exact Nat.not_lt.mpr h.computed
  obtain ⟨base, rest', happend, rfl, hlength⟩ := GeneratingSequence.appendToken_plain
    token hbuffer h.count (by omega) h.setup.overlapping h.unfinished
    (Nat.lt_of_lt_of_le h.started h.computed) decoding
  refine ⟨_, happend, ⟨⟨h.setup.checker, h.setup.overlapping, hlength.trans hcapacity,
    h.setup.prompt, h.setup.logprobs, h.setup.topLogprobs, h.setup.unique⟩, ⟨rest', rfl⟩, ?_,
    h.unfinished, h.started, ?_, h.volatile, h.prompt⟩, rfl, rfl⟩
  · simp [GeneratingSequence.recordToken]
  · rw [length_append]
    exact Nat.le_add_right_of_le h.prompt

theorem newSequence_eq_ok {overlap : Bool} {seq : GeneratingSequence}
    (h : request.newSequence overlap = .ok seq) :
    request.promptTokens ≠ [] ∧ request.promptTokens.length < 2 ^ 61 ∧ Setup request overlap seq ∧
      seq.Stream request.promptTokens [] ∧ seq.FinishCached ∧ seq.kvState = {} ∧
      seq.finished = false ∧ seq.cancelled = false ∧ seq.preScheduledStepPrefillQueue = [] ∧
      seq.volatileNumPromptTokens = seq.numPromptTokens ∧
      seq.tokenToCountMap = request.initialCounts ∧ seq.logprobState = {} := by
  obtain ⟨base, hbase, hseq⟩ := bind_eq_ok h
  rw [Sequence.create] at hbase
  split at hbase
  swap
  · cases hbase
  rename_i hroom
  obtain ⟨hne, hlt, hmax⟩ := hroom
  obtain rfl := Except.ok.inj hbase
  obtain rfl := Except.ok.inj hseq
  refine ⟨hne, by omega, ⟨rfl, rfl, ?_, rfl, rfl, rfl, rfl⟩, ⟨⟨_, rfl⟩, rfl, rfl, ?_⟩,
    ⟨?_, ?_⟩, rfl, rfl, rfl, rfl, rfl, rfl, rfl⟩
  · rw [length_append, length_replicate]
    omega
  · exact fun _ ht => absurd ht not_mem_nil
  · intro h
    cases h
  · intro h
    cases h

theorem newSequence_plain {seq : GeneratingSequence} (h : request.newSequence true = .ok seq) :
    ∃ plain, request.plainRun [] = .ok plain ∧
      PlainAt request plain request.promptTokens ∧ GeneratingSequence.SameRecord seq plain := by
  obtain ⟨plain, hplain⟩ : ∃ plain, request.newSequence false = .ok plain := by
    rw [newSequence] at h ⊢
    obtain ⟨base, hbase, -⟩ := bind_eq_ok h
    rw [Sequence.create] at hbase ⊢
    split at hbase
    swap
    · cases hbase
    rename_i hroom
    obtain ⟨hne, -, hmax⟩ := hroom
    have hlt : request.promptTokens.length < request.seqCapacity false := by
      simp only [seqCapacity]
      omega
    have hle : request.seqCapacity false ≤ request.seqCapacity true := by
      simp only [seqCapacity, Bool.false_eq_true, if_false]
      omega
    rw [if_pos ⟨hne, hlt, by omega⟩]
    exact ⟨_, rfl⟩
  obtain ⟨hne, -, hsetup, hstream, -, -, hunfinished, -, -, hvolatile, hcounts, hlogprobs⟩ :=
    newSequence_eq_ok hplain
  obtain ⟨-, -, -, -, -, -, -, -, -, -, hcounts', hlogprobs'⟩ := newSequence_eq_ok h
  obtain ⟨rest, hbuffer⟩ := hstream.buffer
  have hcount : plain.numTokens = request.promptTokens.length := by simpa using hstream.count
  have hrun : request.plainRun [] = .ok { plain with
      kvState := plain.kvState.setKvCacheTokensNum plain.numTokens } := by
    rw [plainRun, hplain]
    rfl
  refine ⟨_, hrun, ⟨⟨hsetup.checker, hsetup.overlapping, hsetup.capacity, hsetup.prompt,
    hsetup.logprobs, hsetup.topLogprobs, hsetup.unique⟩, ⟨rest, hbuffer⟩, hcount, hunfinished, ?_,
    ?_, hvolatile, ?_⟩, hcounts'.trans hcounts.symm, hlogprobs'.trans hlogprobs.symm⟩
  · change 0 < plain.numPromptTokens
    rw [hsetup.prompt]
    exact List.length_pos_iff.mpr hne
  · exact Nat.le_of_eq hsetup.prompt
  · change plain.numPromptTokens ≤ plain.numTokens
    rw [hsetup.prompt, hcount]

theorem plainRun_concat {tokens : List SampledToken} {token : SampledToken}
    (h : request.plainRun tokens = .ok plain) :
    request.plainRun (tokens ++ [token]) = plain.appendToken token := by
  have hsplit : request.plainRun (tokens ++ [token]) =
      request.plainRun tokens >>= fun plain => plain.appendToken token := by
    simp only [plainRun, bind_assoc, foldlM_append, foldlM_cons, foldlM_nil,
      bind_pure]
  rw [hsplit, h]
  rfl

end GenerationRequest

def tokenIds (tokens : List SampledToken) : List Token := tokens.map SampledToken.id

/-- A sequence with overlap that has received the tokens `real`: up to the cursor it
holds the prompt and these tokens, behind it only fake ids, and it is the sequence
without overlap but for the fake ids at its end. -/
structure OnStream (request : GenerationRequest) (real : List SampledToken)
    (seq : GeneratingSequence) : Prop where
  cursor : seq.curGeneratedTokenIdx = request.promptTokens.length + real.length
  generated : seq.tokenBuffer.take seq.curGeneratedTokenIdx = request.promptTokens ++ tokenIds real
  fakes : ∀ t ∈ seq.tokens.drop seq.curGeneratedTokenIdx, t < 0
  cursor_le : seq.curGeneratedTokenIdx ≤ seq.numTokens
  numTokens_le : seq.numTokens ≤ seq.tokenBuffer.length
  capacity : seq.tokenBuffer.length = request.seqCapacity true
  plain : Ensures (request.plainRun real) (fun _ => False) (fun plain =>
    plain.tokens = seq.tokens.take seq.curGeneratedTokenIdx ∧
    plain.numTokens = seq.curGeneratedTokenIdx ∧ GeneratingSequence.SameRecord seq plain)

namespace OverlapState

variable {request : GenerationRequest} {s : OverlapState} {fakes : List Token}
variable {token : SampledToken}

def received (s : OverlapState) : List SampledToken := realTokens s.calls

/-- What every call preserves; `fakes` are the fake tokens of the sequence. -/
structure Generating (request : GenerationRequest) (s : OverlapState) (fakes : List Token) :
    Prop where
  setup : request.Setup true s.seq
  stream : s.seq.Stream (request.promptTokens ++ tokenIds s.received) fakes
  cached : s.seq.FinishCached
  real : ∀ t ∈ s.received, ¬t.id < 0
  bound : s.received.length ≤ request.effectiveMaxTokens.toNat
  plain : ∃ plain, request.plainRun s.received = .ok plain ∧
    request.PlainAt plain (request.promptTokens ++ tokenIds s.received) ∧
    GeneratingSequence.SameRecord s.seq plain
  points : ∀ before call seq after, s.log = before ++ (call, seq) :: after →
    OnStream request (realTokens (before.map Prod.fst ++ [call])) seq

/-- The members that `Generating` reads, apart from the cached answer. -/
structure SameTokens (a b : GeneratingSequence) : Prop where
  setup : GeneratingSequence.SameSetup a b
  buffer : b.tokenBuffer = a.tokenBuffer
  count : b.numTokens = a.numTokens
  cursor : b.curGeneratedTokenIdx = a.curGeneratedTokenIdx
  record : GeneratingSequence.SameRecord a b

theorem Generating.of_sameTokens (h : Generating request s fakes) {t : OverlapState}
    (same : SameTokens s.seq t.seq) (log : t.log = s.log) (cached : t.seq.FinishCached) :
    Generating request t fakes := by
  have hreceived : t.received = s.received := by rw [received, received, calls, calls, log]
  obtain ⟨plain, hrun, hplain, hcounts, hlogprobs⟩ := h.plain
  refine ⟨h.setup.trans same.setup, ?_, cached, ?_, ?_, ⟨plain, ?_, ?_, ?_⟩, ?_⟩
  · rw [hreceived]
    exact ⟨same.buffer ▸ h.stream.buffer, same.cursor ▸ h.stream.cursor,
      same.count ▸ h.stream.count, h.stream.negative⟩
  · rw [hreceived]
    exact h.real
  · rw [hreceived]
    exact h.bound
  · rw [hreceived]
    exact hrun
  · rw [hreceived]
    exact hplain
  · exact ⟨same.record.1.symm.trans hcounts, same.record.2.symm.trans hlogprobs⟩
  · rw [log]
    exact h.points

variable {seq : GeneratingSequence}

theorem onStream_of_stream {real : List SampledToken} (setup : request.Setup true seq)
    (stream : seq.Stream (request.promptTokens ++ tokenIds real) fakes)
    (plain : ∃ plain, request.plainRun real = .ok plain ∧
      request.PlainAt plain (request.promptTokens ++ tokenIds real) ∧
      GeneratingSequence.SameRecord seq plain) : OnStream request real seq := by
  obtain ⟨plain, hrun, hplain, hrecord⟩ := plain
  have hcursor := stream.cursor
  rw [length_append, tokenIds, length_map] at hcursor
  refine ⟨hcursor, stream.take_cursor, ?_, ?_, stream.room, setup.capacity, ?_⟩
  · rw [stream.tokens, stream.cursor, drop_left' rfl]
    exact stream.negative
  · rw [stream.cursor, stream.count]
    exact Nat.le_add_right _ _
  · rw [hrun]
    refine ⟨?_, ?_, hrecord⟩
    · rw [hplain.tokens, stream.tokens, stream.cursor, take_left' rfl]
    · rw [hplain.count, stream.cursor]

theorem Generating.exists_last (h : Generating request s fakes) (accepted : request.Accepted)
    (hlength : request.promptTokens.length < 2 ^ 61) :
    ∃ valid last, request.promptTokens ++ tokenIds s.received = valid ++ [last] ∧ ¬last < 0 := by
  obtain ⟨-, valid, last, hprompt, hlast⟩ := StoppingChecker.check_prompt accepted
    request.effectiveMaxTokens_pos (Nat.le_of_lt (UInt32.toNat_lt _)) hlength
  obtain hnil | ⟨before, t, hconcat⟩ := eq_nil_or_concat s.received
  · exact ⟨valid, last, by rw [hnil, tokenIds, map_nil, append_nil, hprompt], hlast⟩
  · refine ⟨request.promptTokens ++ tokenIds before, t.id, ?_, h.real t ?_⟩
    · rw [hconcat]
      simp [tokenIds]
    · rw [hconcat]
      simp

theorem Generating.askFinished (h : Generating request s fakes) (accepted : request.Accepted)
    (hlength : request.promptTokens.length < 2 ^ 61) : Yields s.askFinished (fun r =>
      (∃ reason, r.2 = { s with seq := s.seq.answered r.1 reason }) ∧
      Generating request r.2 fakes ∧
      (r.1 = false → s.seq.finished = false ∧
        s.received.length < request.effectiveMaxTokens.toNat)) := by
  obtain ⟨valid, last, hvalid, hlast⟩ := h.exists_last accepted hlength
  obtain ⟨readable, -⟩ := StoppingChecker.check_prompt accepted request.effectiveMaxTokens_pos
    (Nat.le_of_lt (UInt32.toNat_lt _)) hlength
  have hstream := h.stream
  have hsum : valid.length + 1 = request.promptTokens.length + s.received.length := by
    have hcount := congrArg List.length hvalid
    simp only [tokenIds, length_append, length_map, length_cons,
      length_nil] at hcount
    omega
  rw [hvalid] at hstream
  rw [← h.setup.checker] at readable
  have hlimit : s.seq.stoppingChecker.maxGeneratedTokens = request.effectiveMaxTokens.toNat := by
    rw [h.setup.checker]
    rfl
  refine Ensures.bind (GeneratingSequence.isFinished_ensures hstream hlast
    (by rw [h.setup.prompt]; omega) readable h.cached
    (by rw [hlimit]; exact request.effectiveMaxTokens_pos)) ?_
  rintro ⟨answer, seq⟩ ⟨⟨reason, hseq⟩, hcached, hgoes⟩
  obtain rfl : seq = s.seq.answered answer reason := hseq
  refine ⟨⟨reason, rfl⟩, h.of_sameTokens ⟨⟨rfl, rfl, rfl, rfl, rfl, rfl, rfl⟩, rfl, rfl, rfl,
    ⟨rfl, rfl⟩⟩ rfl hcached, fun hanswer => ?_⟩
  obtain ⟨hunfinished, hbound⟩ := hgoes hanswer
  rw [h.setup.prompt] at hbound
  exact ⟨hunfinished, by omega⟩

variable {call : TokenCall} {fakes' : List Token}

theorem Generating.logged (h : Generating request s fakes) (setup : request.Setup true seq)
    (stream : seq.Stream (request.promptTokens ++ tokenIds (realTokens (s.calls ++ [call]))) fakes')
    (cached : seq.FinishCached) (real : ∀ t, call.realToken = some t → ¬t.id < 0)
    (bound : (realTokens (s.calls ++ [call])).length ≤ request.effectiveMaxTokens.toNat)
    (plain : ∃ plain, request.plainRun (realTokens (s.calls ++ [call])) = .ok plain ∧
      request.PlainAt plain (request.promptTokens ++ tokenIds (realTokens (s.calls ++ [call]))) ∧
      GeneratingSequence.SameRecord seq plain) :
    Generating request (s.logged call seq) fakes' := by
  have hreceived : (s.logged call seq).received = realTokens (s.calls ++ [call]) := by
    rw [received, calls, OverlapState.logged, map_append]
    rfl
  refine ⟨setup, by rw [hreceived]; exact stream, cached, ?_, by rw [hreceived]; exact bound,
    by rw [hreceived]; exact plain, ?_⟩
  · rw [hreceived, realTokens, filterMap_append]
    intro t ht
    obtain ht | ht := List.mem_append.mp ht
    · exact h.real t ht
    · obtain ⟨c, hc, ht⟩ := List.mem_filterMap.mp ht
      rw [List.mem_singleton.mp hc] at ht
      exact real t ht
  · intro before call' seq' after hlog
    -- the point is the new one or an old one
    obtain rfl | ⟨after, last, rfl⟩ := eq_nil_or_concat after
    · obtain ⟨hbefore, hpoint⟩ := append_inj' hlog rfl
      obtain ⟨rfl, rfl⟩ : call = call' ∧ seq = seq' := by simpa using hpoint
      rw [← hbefore]
      exact onStream_of_stream setup stream plain
    · rw [concat_eq_append, ← cons_append, ← append_assoc] at hlog
      obtain ⟨hold, -⟩ := append_inj' hlog rfl
      exact h.points before call' seq' after hold

theorem realTokens_concat_none {calls : List TokenCall} (h : call.realToken = .none) :
    realTokens (calls ++ [call]) = realTokens calls := by
  rw [realTokens, filterMap_append, filterMap_cons_none h, filterMap_nil,
    append_nil, realTokens]

theorem realTokens_concat_some {calls : List TokenCall} (h : call.realToken = some token) :
    realTokens (calls ++ [call]) = realTokens calls ++ [token] := by
  rw [realTokens, filterMap_append, filterMap_cons_some h, filterMap_nil, realTokens]

theorem finishCached_of_unfinished (invalidated : seq.finishStatusInvalidated = true)
    (unfinished : seq.finished = false) : seq.FinishCached where
  fresh := fun h => by rw [invalidated] at h; cases h
  settled := fun h => by rw [unfinished] at h; cases h

theorem Generating.appendToken (h : Generating request s fakes) (fake : token.id < 0)
    (room : s.seq.numTokens < s.seq.tokenBuffer.length) :
    Ensures (s.seq.appendToken token) (fun e => e = .appendToken) (fun seq =>
      Generating request (s.logged (.append token) seq) (fakes ++ [token.id]) ∧
        GeneratingSequence.SameFlags s.seq seq) := by
  refine (GeneratingSequence.appendToken_fake h.stream h.setup.overlapping fake room).mono_post ?_
  rintro seq ⟨hstream, hsetup, hflags, hrecord, hinvalidated, hunfinished⟩
  have hnone : (TokenCall.append token).realToken = .none := rfl
  have hreal : realTokens (s.calls ++ [.append token]) = s.received := realTokens_concat_none hnone
  obtain ⟨plain, hrun, hplain, hsame⟩ := h.plain
  refine ⟨h.logged (h.setup.trans hsetup) (by rw [hreal]; exact hstream)
    (finishCached_of_unfinished hinvalidated (hflags.finished.trans hunfinished))
    (fun t ht => by rw [hnone] at ht; cases ht) (by rw [hreal]; exact h.bound) ?_, hflags⟩
  rw [hreal]
  exact ⟨plain, hrun, hplain, hrecord.1.symm.trans hsame.1, hrecord.2.symm.trans hsame.2⟩

/-- A real token that takes effect is the next one of the sequence without overlap. -/
theorem Generating.receive (h : Generating request s fakes) (hcall : call.realToken = some token)
    (real : ¬token.id < 0) (room : s.received.length < request.effectiveMaxTokens.toNat)
    (unfinished : s.seq.finished = false)
    (received : GeneratingSequence.Received s.seq seq
      (request.promptTokens ++ tokenIds s.received) fakes' token) :
    Generating request (s.logged call seq) fakes' := by
  have hreal : realTokens (s.calls ++ [call]) = s.received ++ [token] :=
    realTokens_concat_some hcall
  have hids : request.promptTokens ++ tokenIds (s.received ++ [token]) =
      (request.promptTokens ++ tokenIds s.received) ++ [token.id] := by
    simp [tokenIds]
  obtain ⟨plain, hrun, hplain, hsame⟩ := h.plain
  have hcapacity : (request.promptTokens ++ tokenIds s.received).length <
      request.seqCapacity false := by
    simp only [length_append, tokenIds, length_map, GenerationRequest.seqCapacity]
    omega
  obtain ⟨plain', happend, hplain', hrecord'⟩ := hplain.appendToken token hcapacity
  have hboth := h.setup.recordToken hplain.setup hsame
    (request.promptTokens ++ tokenIds s.received).length token
  refine h.logged (h.setup.trans received.setup) ?_
    (finishCached_of_unfinished received.invalidated (received.flags.finished.trans unfinished))
    ?_ ?_ ⟨plain', ?_, ?_, ?_⟩
  · rw [hreal, hids]
    exact received.stream
  · intro t ht
    rw [hcall] at ht
    obtain rfl := Option.some.inj ht
    exact real
  · rw [hreal, length_append]
    exact room
  · rw [hreal, GenerationRequest.plainRun_concat hrun, happend]
  · rw [hreal, hids]
    exact hplain'
  · exact ⟨received.record.1.symm.trans (hboth.1.trans hrecord'.1),
      received.record.2.symm.trans (hboth.2.trans hrecord'.2)⟩

theorem Generating.updateFirst {fake : Token} (h : Generating request s (fake :: fakes))
    (real : ¬token.id < 0) (room : s.received.length < request.effectiveMaxTokens.toNat)
    (unfinished : s.seq.finished = false) (numKvBlocks : Nat) :
    Yields (s.seq.updateLastStepToken token 0) (fun seq =>
      Generating request (s.logged (.update token 0 numKvBlocks) seq) fakes ∧
        GeneratingSequence.SameFlags s.seq seq) := by
  refine (GeneratingSequence.updateLastStepToken_first h.stream h.setup.overlapping).mono_post ?_
  intro seq hreceived
  have hcall : (TokenCall.update token 0 numKvBlocks).realToken = some token := by
    rw [TokenCall.realToken, if_neg (fun hdrop => absurd hdrop.1 (Nat.lt_irrefl 0))]
  exact ⟨h.receive hcall real room unfinished hreceived, hreceived.flags⟩

theorem Generating.updateFurther {offset : Nat} (h : Generating request s fakes)
    (further : 0 < offset) (few : fakes.length ≤ 2) (real : ¬token.id < 0)
    (room : s.received.length < request.effectiveMaxTokens.toNat)
    (unfinished : s.seq.finished = false) :
    Ensures (s.seq.updateLastStepToken token offset) (fun e => e = .kvTokensOverCapacity)
      (fun seq => Generating request
          (s.logged (.update token offset s.seq.kvState.numKvBlocks) seq) fakes ∧
        GeneratingSequence.SameFlags s.seq seq) := by
  have hroom : (request.promptTokens ++ tokenIds s.received).length + 2 <
      s.seq.tokenBuffer.length := by
    rw [h.setup.capacity]
    simp only [length_append, tokenIds, length_map, GenerationRequest.seqCapacity,
      if_true]
    omega
  refine (GeneratingSequence.updateLastStepToken_further h.stream h.setup.overlapping further few
    hroom).mono_post ?_
  intro seq hseq
  by_cases hblocks : s.seq.kvState.numKvBlocks = 0
  · rw [if_pos hblocks] at hseq
    subst hseq
    have hnone : (TokenCall.update token offset s.seq.kvState.numKvBlocks).realToken = .none := by
      rw [TokenCall.realToken, if_pos ⟨further, hblocks⟩]
    have hreal : realTokens (s.calls ++ [.update token offset s.seq.kvState.numKvBlocks]) =
        s.received := realTokens_concat_none hnone
    refine ⟨h.logged h.setup (by rw [hreal]; exact h.stream) h.cached
      (fun t ht => by rw [hnone] at ht; cases ht) (by rw [hreal]; exact h.bound)
      (by rw [hreal]; exact h.plain), ⟨rfl, rfl, rfl⟩⟩
  · rw [if_neg hblocks] at hseq
    have hcall : (TokenCall.update token offset s.seq.kvState.numKvBlocks).realToken =
        some token := by
      rw [TokenCall.realToken, if_neg (fun hdrop => hblocks hdrop.2)]
    exact ⟨h.receive hcall real room unfinished hseq, hseq.flags⟩

variable {enableChunkedPrefill : Bool} {statuses : List Bool} {status : Bool}

/-- The targets whose results are outstanding, oldest first: `true` stands for a
prefill step that samples nothing, `false` for a step with a fake token. As long as
the sequence goes on, the queue lists them, and so do the fake tokens. -/
structure Outstanding (enableChunkedPrefill : Bool) (statuses : List Bool)
    (seq : GeneratingSequence) (fakes : List Token) : Prop where
  covered : enableChunkedPrefill = true → seq.finished = false →
    statuses.length ≤ seq.preScheduledStepPrefillQueue.length
  queue : seq.cancelled = false → seq.finished = false → enableChunkedPrefill = true →
    seq.preScheduledStepPrefillQueue = statuses
  sampling : seq.cancelled = false → seq.finished = false → enableChunkedPrefill = false →
    ∀ status ∈ statuses, status = false
  fakes : seq.cancelled = false → seq.finished = false → fakes.length = statuses.count false

theorem outstanding_of_finished (h : seq.finished = true) :
    Outstanding enableChunkedPrefill statuses seq fakes where
  covered := fun _ hgoes => by rw [h] at hgoes; cases hgoes
  queue := fun _ hgoes => by rw [h] at hgoes; cases hgoes
  sampling := fun _ hgoes => by rw [h] at hgoes; cases hgoes
  fakes := fun _ hgoes => by rw [h] at hgoes; cases hgoes

theorem outstanding_of_cancelled (h : seq.cancelled = true)
    (covered : enableChunkedPrefill = true → seq.finished = false →
      statuses.length ≤ seq.preScheduledStepPrefillQueue.length) :
    Outstanding enableChunkedPrefill statuses seq fakes where
  covered := covered
  queue := fun hgoes => by rw [h] at hgoes; cases hgoes
  sampling := fun hgoes => by rw [h] at hgoes; cases hgoes
  fakes := fun hgoes => by rw [h] at hgoes; cases hgoes

variable {seq seq' : GeneratingSequence}

theorem Outstanding.mono (h : Outstanding enableChunkedPrefill statuses seq fakes)
    (finished : seq'.finished = false → seq.finished = false)
    (cancelled : seq'.cancelled = false → seq.cancelled = false)
    (queue : seq'.preScheduledStepPrefillQueue = seq.preScheduledStepPrefillQueue) :
    Outstanding enableChunkedPrefill statuses seq' fakes where
  covered := fun hchunked hgoes => by
    rw [queue]
    exact h.covered hchunked (finished hgoes)
  queue := fun hcancelled hgoes hchunked => by
    rw [queue]
    exact h.queue (cancelled hcancelled) (finished hgoes) hchunked
  sampling := fun hcancelled hgoes => h.sampling (cancelled hcancelled) (finished hgoes)
  fakes := fun hcancelled hgoes => h.fakes (cancelled hcancelled) (finished hgoes)

/-- The sequence has its tokens in place, and the results of `statuses` are outstanding. -/
def Awaiting (request : GenerationRequest) (enableChunkedPrefill : Bool) (statuses : List Bool)
    (s : OverlapState) : Prop :=
  ∃ fakes, Generating request s fakes ∧ Outstanding enableChunkedPrefill statuses s.seq fakes

theorem Awaiting.of_sameTokens (h : Awaiting request enableChunkedPrefill statuses s)
    {t : OverlapState} (same : SameTokens s.seq t.seq) (log : t.log = s.log)
    (finished : t.seq.finished = s.seq.finished)
    (invalidated : t.seq.finishStatusInvalidated = s.seq.finishStatusInvalidated)
    (cancelled : t.seq.cancelled = false → s.seq.cancelled = false)
    (queue : t.seq.preScheduledStepPrefillQueue = s.seq.preScheduledStepPrefillQueue) :
    Awaiting request enableChunkedPrefill statuses t := by
  obtain ⟨fakes, hgenerating, houtstanding⟩ := h
  refine ⟨fakes, hgenerating.of_sameTokens same log ⟨fun hvalid hgoes => ?_, fun hdone => ?_⟩,
    houtstanding.mono (fun hgoes => by rw [← finished]; exact hgoes) cancelled queue⟩
  · rw [same.setup.checker, same.setup.prompt, Sequence.tokens, same.buffer, same.count]
    rw [invalidated] at hvalid
    rw [finished] at hgoes
    exact hgenerating.cached.fresh hvalid hgoes
  · rw [invalidated]
    rw [finished] at hdone
    exact hgenerating.cached.settled hdone

theorem Awaiting.cancelIf (h : Awaiting request enableChunkedPrefill statuses s) (cancel : Bool) :
    Awaiting request enableChunkedPrefill statuses (s.cancelIf cancel) :=
  h.of_sameTokens ⟨⟨rfl, rfl, rfl, rfl, rfl, rfl, rfl⟩, rfl, rfl, rfl, ⟨rfl, rfl⟩⟩ rfl rfl rfl
    (fun hcancelled => (Bool.or_eq_false_iff.mp hcancelled).1) rfl

theorem Awaiting.askFinished (h : Awaiting request enableChunkedPrefill statuses s)
    (accepted : request.Accepted) (hlength : request.promptTokens.length < 2 ^ 61) :
    Yields s.askFinished (fun r =>
      (∃ reason, r.2 = { s with seq := s.seq.answered r.1 reason }) ∧
      Awaiting request enableChunkedPrefill statuses r.2 ∧
      (r.1 = false → s.received.length < request.effectiveMaxTokens.toNat)) := by
  obtain ⟨fakes, hgenerating, houtstanding⟩ := h
  refine (hgenerating.askFinished accepted hlength).mono_post ?_
  rintro ⟨answer, t⟩ ⟨⟨reason, ht⟩, hnext, hgoes⟩
  obtain rfl : t = { s with seq := s.seq.answered answer reason } := ht
  exact ⟨⟨reason, rfl⟩, ⟨fakes, hnext, houtstanding.mono (fun hanswer => (hgoes hanswer).1)
    (fun hcancelled => hcancelled) rfl⟩, fun hanswer => (hgoes hanswer).2⟩

/-- What the rest of a pass starts from after a negative answer of `finished`. -/
structure GoesOn (request : GenerationRequest) (enableChunkedPrefill : Bool)
    (statuses : List Bool) (s : OverlapState) : Prop where
  awaiting : Awaiting request enableChunkedPrefill statuses s
  unfinished : s.seq.finished = false
  room : s.received.length < request.effectiveMaxTokens.toNat

theorem GoesOn.cancelIf (h : GoesOn request enableChunkedPrefill statuses s) (cancel : Bool) :
    GoesOn request enableChunkedPrefill statuses (s.cancelIf cancel) :=
  ⟨h.awaiting.cancelIf cancel, h.unfinished, h.room⟩

theorem Awaiting.askThen {E : Check → Prop} {Q : OverlapState → Prop}
    {k : OverlapState → Except Check OverlapState}
    (h : Awaiting request enableChunkedPrefill statuses s) (accepted : request.Accepted)
    (hlength : request.promptTokens.length < 2 ^ 61)
    (stops : ∀ t, Awaiting request enableChunkedPrefill statuses t → t.seq.finished = true →
      t.isTarget = s.isTarget → Q t)
    (goes : ∀ t, GoesOn request enableChunkedPrefill statuses t → t.isTarget = s.isTarget →
      t.seq.cancelled = s.seq.cancelled → Ensures (k t) E Q) :
    Ensures (do
      let (finished, t) ← s.askFinished
      if finished then .ok t else k t) E Q := by
  refine Ensures.bind (h.askFinished accepted hlength).total ?_
  rintro ⟨answer, t⟩ ⟨⟨reason, ht⟩, hnext, hroom⟩
  obtain rfl : t = { s with seq := s.seq.answered answer reason } := ht
  cases answer with
  | true => exact stops _ hnext rfl rfl
  | false => exact goes _ ⟨hnext, rfl, hroom rfl⟩ rfl rfl

theorem processRow_further (accepted : request.Accepted)
    (hlength : request.promptTokens.length < 2 ^ 61) (few : statuses.length ≤ 2)
    {row : List RowToken} (hrow : ∀ entry ∈ row, ¬entry.token.id < 0) {tokenIdx : Nat}
    (further : 0 < tokenIdx) (h : GoesOn request enableChunkedPrefill statuses s) :
    Ensures (processRow enableChunkedPrefill true tokenIdx row s)
      (fun e => e = .kvTokensOverCapacity)
      (fun t => Awaiting request enableChunkedPrefill statuses t ∧ t.isTarget = s.isTarget) := by
  induction row generalizing tokenIdx s with
  | nil => exact ⟨h.awaiting, rfl⟩
  | cons entry row ih =>
      have hcancel := h.cancelIf entry.cancel
      refine Ensures.bind (Q := fun t => Awaiting request enableChunkedPrefill statuses t ∧
        t.isTarget = s.isTarget) ?_ ?_
      · rw [appendTokenForSequence, if_neg (by decide)]
        split
        swap
        · exact ⟨hcancel.awaiting, rfl⟩
        rename_i hactive
        obtain ⟨fakes, hgenerating, houtstanding⟩ := hcancel.awaiting
        have hfew : fakes.length ≤ 2 := by
          rw [houtstanding.fakes hactive hcancel.unfinished]
          exact Nat.le_trans count_le_length few
        refine (hgenerating.updateFurther further hfew (hrow entry mem_cons_self) hcancel.room
          hcancel.unfinished).bind ?_
        rintro seq ⟨hnext, hflags⟩
        rw [if_neg (fun hfirst => absurd hfirst.2 (by omega))]
        exact ⟨⟨fakes, hnext, houtstanding.mono (fun hgoes => hflags.finished ▸ hgoes)
          (fun hgoes => hflags.cancelled ▸ hgoes) hflags.queue⟩, rfl⟩
      · rintro t ⟨hawaiting, htarget⟩
        refine hawaiting.askThen accepted hlength (fun u hu _ hut => ⟨hu, hut.trans htarget⟩) ?_
        intro u hgoes hut _
        refine (ih (fun e he => hrow e (mem_cons_of_mem _ he)) (Nat.succ_pos _) hgoes).mono_post ?_
        rintro v ⟨hv, hvu⟩
        exact ⟨hv, hvu.trans (hut.trans htarget)⟩

/-- The first token of a step's result settles the oldest outstanding target. -/
theorem appendTokenForSequence_first (real : ¬token.id < 0)
    (h : GoesOn request enableChunkedPrefill (false :: statuses) s) :
    Yields (s.appendTokenForSequence enableChunkedPrefill token 0 true)
      (fun t => Awaiting request enableChunkedPrefill statuses t ∧ t.isTarget = s.isTarget) := by
  obtain ⟨fakes, hgenerating, houtstanding⟩ := h.awaiting
  rw [appendTokenForSequence, if_neg (by decide)]
  split
  swap
  · rename_i hcancelled
    refine ⟨⟨fakes, hgenerating, outstanding_of_cancelled (by simpa using hcancelled) ?_⟩, rfl⟩
    intro hchunked hgoes
    exact Nat.le_of_succ_le (houtstanding.covered hchunked hgoes)
  rename_i hactive
  have hcount := houtstanding.fakes hactive h.unfinished
  rw [count_cons_self] at hcount
  obtain ⟨fake, fakes, rfl⟩ := exists_cons_of_length_eq_add_one hcount
  refine (hgenerating.updateFirst real h.room h.unfinished s.seq.kvState.numKvBlocks).bind ?_
  rintro seq ⟨hnext, hflags⟩
  have hcount' : fakes.length = statuses.count false := Nat.succ.inj hcount
  by_cases hchunked : enableChunkedPrefill = true
  · rw [if_pos ⟨hchunked, rfl⟩]
    have hqueue : seq.preScheduledStepPrefillQueue = false :: statuses := by
      rw [hflags.queue]
      exact houtstanding.queue hactive h.unfinished hchunked
    simp only [popStage, logged, hqueue]
    refine ⟨⟨fakes, hnext.of_sameTokens ⟨⟨rfl, rfl, rfl, rfl, rfl, rfl, rfl⟩, rfl, rfl, rfl,
      ⟨rfl, rfl⟩⟩ rfl ⟨hnext.cached.fresh, hnext.cached.settled⟩, ?_⟩, rfl⟩
    exact ⟨fun _ _ => Nat.le_refl _, fun _ _ _ => rfl,
      fun _ _ hnot => absurd (hchunked.symm.trans hnot) (by decide), fun _ _ => hcount'⟩
  · rw [if_neg (fun hpop => hchunked hpop.1)]
    refine ⟨⟨fakes, hnext, ?_⟩, rfl⟩
    exact ⟨fun hnot => absurd hnot hchunked, fun _ _ hnot => absurd hnot hchunked,
      fun _ _ hnot b hb => houtstanding.sampling hactive h.unfinished hnot b
        (mem_cons_of_mem _ hb), fun _ _ => hcount'⟩

theorem updateSequenceState_replace
    (h : GoesOn request enableChunkedPrefill (status :: statuses) s) :
    Yields (s.updateSequenceState enableChunkedPrefill true) (fun r =>
      r.2.isTarget = s.isTarget ∧
      if r.1 = true then Awaiting request enableChunkedPrefill statuses r.2
      else GoesOn request enableChunkedPrefill (false :: statuses) r.2) := by
  obtain ⟨fakes, hgenerating, houtstanding⟩ := h.awaiting
  have hsame : ∀ queue, SameTokens s.seq (s.setQueue queue).seq := fun _ =>
    ⟨⟨rfl, rfl, rfl, rfl, rfl, rfl, rfl⟩, rfl, rfl, rfl, ⟨rfl, rfl⟩⟩
  rw [updateSequenceState]
  split
  swap
  · rename_i hchunked
    refine ⟨rfl, ⟨fakes, hgenerating, ?_⟩, h.unfinished, h.room⟩
    refine ⟨fun hnot => absurd hnot hchunked, fun _ _ hnot => absurd hnot hchunked, ?_, ?_⟩
    · intro hactive hgoes hnot b hb
      obtain rfl | hb := List.mem_cons.mp hb
      · rfl
      · exact houtstanding.sampling hactive hgoes hnot b (mem_cons_of_mem _ hb)
    · intro hactive hgoes
      have hstatus := houtstanding.sampling hactive hgoes (by simpa using hchunked) status
        mem_cons_self
      have hfakes := houtstanding.fakes hactive hgoes
      rw [hstatus] at hfakes
      exact hfakes
  rename_i hchunked
  rw [if_neg (fun hpush => absurd hpush.1 (by decide)), if_pos rfl]
  have hcovered := houtstanding.covered hchunked h.unfinished
  split
  · rename_i hempty
    rw [hempty] at hcovered
    simp at hcovered
  · rename_i queue hqueue
    rw [hqueue] at hcovered
    refine ⟨rfl, fakes, hgenerating.of_sameTokens (hsame queue) rfl
      ⟨hgenerating.cached.fresh, hgenerating.cached.settled⟩, ?_⟩
    refine ⟨fun _ _ => Nat.le_of_succ_le_succ hcovered, ?_, ?_, ?_⟩
    · intro hactive hgoes _
      have hlist := houtstanding.queue hactive hgoes hchunked
      rw [hqueue] at hlist
      exact (List.cons.inj hlist).2
    · exact fun _ _ hnot => by rw [hchunked] at hnot; cases hnot
    · intro hactive hgoes
      have hlist := houtstanding.queue hactive hgoes hchunked
      rw [hqueue] at hlist
      have hfakes := houtstanding.fakes hactive hgoes
      rw [← (List.cons.inj hlist).1] at hfakes
      simpa using hfakes
  · rename_i queue hqueue
    refine ⟨rfl, ⟨fakes, hgenerating, ?_⟩, h.unfinished, h.room⟩
    have hhead : s.seq.cancelled = false → s.seq.finished = false → false = status := by
      intro hactive hgoes
      have hlist := houtstanding.queue hactive hgoes hchunked
      rw [hqueue] at hlist
      exact (List.cons.inj hlist).1
    refine ⟨fun _ _ => hcovered, ?_, ?_, ?_⟩
    · intro hactive hgoes _
      rw [hhead hactive hgoes]
      exact houtstanding.queue hactive hgoes hchunked
    · exact fun _ _ hnot => by rw [hchunked] at hnot; cases hnot
    · intro hactive hgoes
      have hfakes := houtstanding.fakes hactive hgoes
      rw [← hhead hactive hgoes] at hfakes
      exact hfakes

theorem processSampleOutput_replace (accepted : request.Accepted)
    (hlength : request.promptTokens.length < 2 ^ 61) (few : statuses.length ≤ 2)
    {row : List RowToken} (hne : row ≠ []) (hrow : ∀ entry ∈ row, ¬entry.token.id < 0)
    (h : Awaiting request enableChunkedPrefill (status :: statuses) s) :
    Ensures (s.processSampleOutput enableChunkedPrefill row true)
      (fun e => e = .kvTokensOverCapacity)
      (fun t => Awaiting request enableChunkedPrefill statuses t ∧ t.isTarget = s.isTarget) := by
  refine h.askThen (k := fun t => do
    let (skipped, t) ← t.updateSequenceState enableChunkedPrefill true
    if skipped then .ok t else processRow enableChunkedPrefill true 0 row t) accepted hlength ?_ ?_
  · rintro t ⟨fakes, ht, -⟩ hfinished htarget
    exact ⟨⟨fakes, ht, outstanding_of_finished hfinished⟩, htarget⟩
  intro t ht htarget _
  refine Ensures.bind (updateSequenceState_replace ht).total ?_
  rintro ⟨skipped, u⟩ ⟨hu, hnext⟩
  cases skipped with
  | true => exact ⟨hnext, hu.trans htarget⟩
  | false =>
      obtain ⟨entry, row, rfl⟩ := exists_cons_of_ne_nil hne
      have hgoes : GoesOn request enableChunkedPrefill (false :: statuses) u := hnext
      refine Ensures.bind (appendTokenForSequence_first (hrow entry mem_cons_self)
        (hgoes.cancelIf entry.cancel)).total ?_
      rintro v ⟨hv, hvu⟩
      have hvs : v.isTarget = s.isTarget := hvu.trans (hu.trans htarget)
      refine hv.askThen accepted hlength (fun w hw _ hwv => ⟨hw, hwv.trans hvs⟩) ?_
      intro w hw hwv _
      refine (processRow_further accepted hlength few
        (fun e he => hrow e (mem_cons_of_mem _ he)) (Nat.succ_pos 0) hw).mono_post ?_
      rintro x ⟨hx, hxw⟩
      exact ⟨hx, hxw.trans (hwv.trans hvs)⟩

theorem Outstanding.pushStage (h : Outstanding enableChunkedPrefill statuses s.seq fakes)
    (hchunked : enableChunkedPrefill = true) (active : s.seq.cancelled = false)
    (unfinished : s.seq.finished = false) (few : statuses.length ≤ 1) (status : Bool)
    (hfakes : fakes'.length = (statuses ++ [status]).count false) :
    Outstanding enableChunkedPrefill (statuses ++ [status]) (s.pushStage status).seq fakes' := by
  have hqueue : (s.pushStage status).seq.preScheduledStepPrefillQueue = statuses ++ [status] := by
    simp only [OverlapState.pushStage, setQueue, h.queue active unfinished hchunked]
    rw [if_neg]
    rw [length_append, length_singleton]
    omega
  exact ⟨fun _ _ => by rw [hqueue], fun _ _ _ => hqueue,
    fun _ _ hnot => absurd (hchunked.symm.trans hnot) (by decide), fun _ _ => hfakes⟩

theorem Generating.pushStage (h : Generating request s fakes) (status : Bool) :
    Generating request (s.pushStage status) fakes :=
  h.of_sameTokens ⟨⟨rfl, rfl, rfl, rfl, rfl, rfl, rfl⟩, rfl, rfl, rfl, ⟨rfl, rfl⟩⟩ rfl
    ⟨h.cached.fresh, h.cached.settled⟩

theorem appendTokenForSequence_fake (fake : token.id < 0) (few : statuses.length ≤ 1)
    (active : s.seq.cancelled = false)
    (h : GoesOn request enableChunkedPrefill statuses s) :
    Ensures (s.appendTokenForSequence enableChunkedPrefill token 0 false)
      (fun e => e = .appendToken)
      (fun t => Awaiting request enableChunkedPrefill (statuses ++ [false]) t ∧
        t.isTarget = s.isTarget) := by
  obtain ⟨fakes, hgenerating, houtstanding⟩ := h.awaiting
  have hfakes := houtstanding.fakes active h.unfinished
  have hroom : s.seq.numTokens < s.seq.tokenBuffer.length := by
    have hone : fakes.length ≤ 1 := by
      rw [hfakes]
      exact Nat.le_trans count_le_length few
    have hreal := h.room
    rw [hgenerating.setup.capacity, hgenerating.stream.count]
    simp only [length_append, tokenIds, length_map, GenerationRequest.seqCapacity]
    omega
  have hmore : (fakes ++ [token.id]).length = (statuses ++ [false]).count false := by
    rw [length_append, count_append, hfakes]
    rfl
  refine (hgenerating.appendToken fake hroom).bind ?_
  rintro seq ⟨hnext, hflags⟩
  have hsame : Outstanding enableChunkedPrefill statuses seq fakes :=
    houtstanding.mono (fun hgoes => hflags.finished ▸ hgoes)
      (fun hgoes => hflags.cancelled ▸ hgoes) hflags.queue
  have hactive : seq.cancelled = false := hflags.cancelled.trans active
  have hunfinished : seq.finished = false := hflags.finished.trans h.unfinished
  refine ⟨⟨fakes ++ [token.id], ?_⟩, ?_⟩
  · split
    · rename_i hchunked
      exact ⟨hnext.pushStage false, Outstanding.pushStage (s := s.logged _ seq) hsame hchunked
        hactive hunfinished few false hmore⟩
    · rename_i hchunked
      refine ⟨hnext, fun hnot => absurd hnot hchunked, fun _ _ hnot => absurd hnot hchunked, ?_,
        fun _ _ => hmore⟩
      intro _ _ hnot b hb
      obtain hb | hb := List.mem_append.mp hb
      · exact hsame.sampling hactive hunfinished hnot b hb
      · exact List.mem_singleton.mp hb
  · split <;> rfl

/-- The output of a new step gives the sequence a fake token, or notes a prefill that
samples nothing. -/
theorem processSampleOutput_fake (accepted : request.Accepted)
    (hlength : request.promptTokens.length < 2 ^ 61) (fake : token.id < 0)
    (few : statuses.length ≤ 1) (active : s.seq.cancelled = false)
    (h : Awaiting request enableChunkedPrefill statuses s) :
    Ensures (s.processSampleOutput enableChunkedPrefill [{ token := token }] false)
      (fun e => e = .appendToken)
      (fun t => (∃ status, Awaiting request enableChunkedPrefill (statuses ++ [status]) t) ∧
        t.isTarget = s.isTarget) := by
  refine h.askThen (k := fun t => do
    let (skipped, t) ← t.updateSequenceState enableChunkedPrefill false
    if skipped then .ok t
    else processRow enableChunkedPrefill false 0 [{ token := token }] t) accepted hlength ?_ ?_
  · rintro t ⟨fakes, ht, -⟩ hfinished htarget
    exact ⟨⟨false, fakes, ht, outstanding_of_finished hfinished⟩, htarget⟩
  intro t ht htarget hcancelled
  have hactive : t.seq.cancelled = false := hcancelled.trans active
  have hstate : Yields (t.updateSequenceState enableChunkedPrefill false) (fun r =>
      r = (false, t) ∨ (enableChunkedPrefill = true ∧ r = (true, t.pushStage true))) := by
    rw [updateSequenceState]
    split
    · rename_i hchunked
      split
      · exact Or.inr ⟨hchunked, rfl⟩
      · exact Or.inl rfl
    · exact Or.inl rfl
  refine Ensures.bind hstate.total ?_
  rintro r (rfl | ⟨hchunked, rfl⟩)
  · change Ensures (processRow enableChunkedPrefill false 0 [{ token := token }] t) _ _
    rw [processRow]
    have hcancelIf : t.cancelIf false = t := by
      rw [OverlapState.cancelIf, Bool.or_false]
    rw [hcancelIf]
    refine (appendTokenForSequence_fake fake few hactive ht).bind ?_
    rintro u ⟨hu, hut⟩
    refine hu.askThen accepted hlength (fun v hv _ hvu =>
      ⟨⟨false, hv⟩, hvu.trans (hut.trans htarget)⟩) ?_
    intro v hv hvu _
    exact ⟨⟨false, hv.awaiting⟩, hvu.trans (hut.trans htarget)⟩
  · obtain ⟨fakes, hgenerating, houtstanding⟩ := ht.awaiting
    refine ⟨⟨true, fakes, hgenerating.pushStage true, houtstanding.pushStage hchunked hactive
      ht.unfinished few true ?_⟩, htarget⟩
    rw [houtstanding.fakes hactive ht.unfinished, count_append]
    rfl

/-- Between two rounds at most one result is outstanding, that of the last batch. -/
def Steady (request : GenerationRequest) (enableChunkedPrefill : Bool) (s : OverlapState) : Prop :=
  ∃ statuses, Awaiting request enableChunkedPrefill statuses s ∧
    statuses.length = s.isTarget.toNat

theorem Awaiting.prepareBatch (h : Awaiting request enableChunkedPrefill statuses s)
    (round : OverlapRound) :
    Awaiting request enableChunkedPrefill statuses (s.prepareBatch round) :=
  (h.cancelIf round.cancel).of_sameTokens ⟨⟨rfl, rfl, rfl, rfl, rfl, rfl, rfl⟩, rfl, rfl, rfl,
    ⟨rfl, rfl⟩⟩ rfl rfl rfl (fun hcancelled => hcancelled) rfl

/-- Step lemma of the engine: a sequence that awaits its tokens awaits the next ones. -/
theorem engineStep_ensures (accepted : request.Accepted)
    (hlength : request.promptTokens.length < 2 ^ 61) {fake : Option SampledToken}
    (hfake : ∀ token, fake = some token → token.id < 0 ∧ s.seq.cancelled = false)
    (few : statuses.length ≤ 1) (h : Awaiting request enableChunkedPrefill statuses s) :
    Ensures (s.engineStep enableChunkedPrefill fake) (fun e => e = .appendToken)
      (fun t => ∃ more, Awaiting request enableChunkedPrefill (statuses ++ more) t ∧
        more.length = fake.isSome.toNat ∧ t.isTarget = s.isTarget) := by
  cases fake with
  | none => exact ⟨[], by rw [append_nil]; exact h, rfl, rfl⟩
  | some token =>
      obtain ⟨hneg, hactive⟩ := hfake token rfl
      refine (processSampleOutput_fake accepted hlength hneg few hactive h).mono_post ?_
      rintro t ⟨⟨status, ht⟩, htarget⟩
      exact ⟨[status], ht, rfl, htarget⟩

/-- Step lemma of a round: it stops at a full buffer or full blocks, or is steady again. -/
theorem step_ensures (accepted : request.Accepted)
    (hlength : request.promptTokens.length < 2 ^ 61) {round : OverlapRound}
    (wellFormed : round.WellFormed) (h : Steady request enableChunkedPrefill s) :
    Ensures (s.step enableChunkedPrefill round)
      (fun e => e = .appendToken ∨ e = .kvTokensOverCapacity)
      (Steady request enableChunkedPrefill) := by
  obtain ⟨statuses, hawaiting, hcount⟩ := h
  have hone : statuses.length ≤ 1 := by
    rw [hcount]
    exact Bool.toNat_le _
  refine Ensures.bind ((hawaiting.prepareBatch round).askFinished accepted hlength).total ?_
  rintro ⟨finished, t⟩ ⟨⟨reason, ht⟩, hnext, -⟩
  have htarget : t.isTarget = s.isTarget := by
    have hfield := congrArg OverlapState.isTarget ht
    exact hfield
  generalize hfake : (if finished = true ∨ t.seq.cancelled = true then Option.none
    else round.fake) = fake
  have hvalid : ∀ token, fake = some token → token.id < 0 ∧ t.seq.cancelled = false := by
    intro token htoken
    rw [htoken] at hfake
    split at hfake
    · cases hfake
    · rename_i hgoes
      refine ⟨wellFormed.fake token hfake, ?_⟩
      exact Bool.eq_false_iff.mpr fun hcancelled => hgoes (Or.inr hcancelled)
  simp only [hfake]
  refine Ensures.bind ((engineStep_ensures accepted hlength hvalid hone hnext).mono
    (fun _ => Or.inl) fun _ hq => hq) ?_
  rintro u ⟨more, hu, hmore, hut⟩
  have hfew : more.length ≤ 2 := by
    rw [hmore]
    exact Nat.le_trans (Bool.toNat_le _) (by decide)
  refine Ensures.bind (Q := Awaiting request enableChunkedPrefill more) ?_ ?_
  · rw [updateLastStepResult]
    split
    · rename_i hlast
      rw [hut.trans htarget] at hlast
      rw [hlast] at hcount
      obtain ⟨status, rfl⟩ := List.length_eq_one_iff.mp hcount
      exact (processSampleOutput_replace accepted hlength hfew wellFormed.row_ne_nil wellFormed.row
        hu).mono (fun _ => Or.inr) fun _ hq => hq.1
    · rename_i hlast
      rw [hut.trans htarget, Bool.not_eq_true] at hlast
      rw [hlast] at hcount
      rw [List.length_eq_zero_iff.mp hcount] at hu
      exact hu
  · intro v hv
    exact ⟨more, hv.of_sameTokens ⟨⟨rfl, rfl, rfl, rfl, rfl, rfl, rfl⟩, rfl, rfl, rfl, ⟨rfl, rfl⟩⟩
      rfl rfl rfl (fun hcancelled => hcancelled) rfl, hmore⟩

theorem steady_newSequence (enableChunkedPrefill : Bool) (h : request.newSequence true = .ok seq) :
    Steady request enableChunkedPrefill { seq := seq } := by
  obtain ⟨-, -, hsetup, hstream, hcached, -, -, -, hqueue, -⟩ :=
    GenerationRequest.newSequence_eq_ok h
  obtain ⟨plain, hrun, hplain, hrecord⟩ := GenerationRequest.newSequence_plain h
  refine ⟨[], ⟨[], ⟨hsetup, ?_, hcached, fun _ ht => absurd ht not_mem_nil, Nat.zero_le _,
    ⟨plain, hrun, ?_, hrecord⟩, ?_⟩, fun _ _ => Nat.zero_le _, fun _ _ _ => hqueue,
    fun _ _ _ _ hb => absurd hb not_mem_nil, fun _ _ => rfl⟩, rfl⟩
  · change seq.Stream (request.promptTokens ++ []) []
    rw [append_nil]
    exact hstream
  · change request.PlainAt plain (request.promptTokens ++ [])
    rw [append_nil]
    exact hplain
  · intro before call seq' after hlog
    simp at hlog

/-- Schedule overlap gives the tokens of a run without overlap. After every call of
`append_token` and `update_last_step_token` that the batches make, and at the end, the
sequence is on its stream, and no call writes outside the buffer: the only aborts are
the checks on the key-value state. Fake tokens stay behind a sequence that has
finished or was cancelled; one that goes on with no result outstanding has none. -/
theorem run_overlap_on_stream (request : GenerationRequest) (accepted : request.Accepted)
    (seq : GeneratingSequence) (created : request.newSequence true = .ok seq)
    (enableChunkedPrefill : Bool) (rounds : List OverlapRound)
    (wellFormed : ∀ round ∈ rounds, round.WellFormed) :
    Ensures (run (step enableChunkedPrefill) { seq := seq } rounds)
      (fun e => e = .appendToken ∨ e = .kvTokensOverCapacity)
      (fun s =>
        (∀ before call seq after, s.log = before ++ (call, seq) :: after →
          OnStream request (realTokens (before.map Prod.fst ++ [call])) seq) ∧
        OnStream request s.received s.seq ∧
        (s.isTarget = false → s.seq.cancelled = false → s.seq.finished = false →
          s.seq.numTokens = s.seq.curGeneratedTokenIdx)) := by
  obtain ⟨-, hlength, -⟩ := GenerationRequest.newSequence_eq_ok created
  have hrun : Ensures (run (step enableChunkedPrefill) { seq := seq } rounds) _ _ :=
    Along.ensures_run (fun s round hs hround => step_ensures accepted hlength hround hs)
      (steady_newSequence enableChunkedPrefill created) (along_of_forall wellFormed)
  refine hrun.mono_post ?_
  rintro s ⟨statuses, ⟨fakes, hgenerating, houtstanding⟩, hcount⟩
  refine ⟨hgenerating.points,
    onStream_of_stream hgenerating.setup hgenerating.stream hgenerating.plain, ?_⟩
  intro hlast hactive hgoes
  have hfakes := houtstanding.fakes hactive hgoes
  rw [hlast] at hcount
  rw [List.length_eq_zero_iff.mp hcount] at hfakes
  rw [hgenerating.stream.count, hgenerating.stream.cursor, hfakes]
  rfl

/-- A request for two tokens with one speculative token. -/
def pairRequest : GenerationRequest :=
  { promptTokens := [7], maxTokens := 2, numSpeculativeTokens := 1 }

def oneBlock (kvCacheTokensNum : Nat) : KVCacheState :=
  { kvCacheTokensNum := kvCacheTokensNum, blocks := [{ id := 1, size := 16 }] }

def pairRounds : List OverlapRound :=
  [{ kvState := oneBlock 1, fake := some { id := -1 }, row := [{ token := { id := 5 } }] },
    { kvState := oneBlock 2, fake := some { id := -1 },
      row := [{ token := { id := 5 } }, { token := { id := 6 } }] }]

theorem pairRounds_wellFormed : ∀ round ∈ pairRounds, round.WellFormed := by
  intro round hround
  obtain rfl | rfl : round = pairRounds[0] ∨ round = pairRounds[1] := by
    simpa [pairRounds] using hround
  · refine ⟨?_, by decide, by decide⟩
    rintro token ⟨rfl⟩
    decide
  · refine ⟨?_, by decide, by decide⟩
    rintro token ⟨rfl⟩
    decide

theorem run_overlap_on_stream_pair :
    ∃ seq, pairRequest.newSequence true = .ok seq ∧ pairRequest.Accepted ∧
      Ensures (run (step true) { seq := seq } pairRounds) (fun _ => False)
        (fun s => s.seq.tokens = [7, 5, 6, -1]) ∧
      Ensures (run (step true) { seq := seq } pairRounds)
        (fun e => e = .appendToken ∨ e = .kvTokensOverCapacity)
        (fun s => OnStream pairRequest s.received s.seq) :=
  ⟨_, rfl, by decide, by decide,
    (run_overlap_on_stream pairRequest (by decide) _ rfl true pairRounds
      pairRounds_wellFormed).mono_post fun _ h => h.2.1⟩

/-- The result of the step that was started before the end of the sequence was known. -/
def lateRound : OverlapRound :=
  { kvState := oneBlock 3, row := [{ token := { id := 8 } }] }

/-- The first step, and its two tokens after the sequence has been preempted. -/
def preemptedRounds : List OverlapRound :=
  [{ kvState := oneBlock 1, fake := some { id := -1 }, row := [{ token := { id := 5 } }] },
    { preempted := true, row := [{ token := { id := 5 } }, { token := { id := 6 } }] }]

/-- After the last update a finished sequence still has a fake token that it would not
have without overlap, and a preempted sequence has kept the first of two tokens only. -/
theorem overlap_differs_from_plain :
    Ensures (pairRequest.newSequence true >>= fun seq =>
        run (step true) { seq := seq } (pairRounds ++ [lateRound])) (fun _ => False)
      (fun s => s.isTarget = false ∧ Ensures (pairRequest.plainRun s.received) (fun _ => False)
        (fun plain => s.seq.tokens = plain.tokens ++ [-1])) ∧
    Ensures (pairRequest.newSequence true >>= fun seq =>
        run (step true) { seq := seq } preemptedRounds) (fun _ => False)
      (fun s => s.isTarget = false ∧
        s.seq.tokenBuffer.take s.seq.curGeneratedTokenIdx = [7, 5]) := by
  decide

end OverlapState

end Xllm
