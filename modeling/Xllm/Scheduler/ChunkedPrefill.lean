import Xllm.Scheduler.Continuous

/-!
# The chunked-prefill scheduler

`ChunkedPrefillScheduler::prepare_batch` schedules requests of the running queues
first, one decoding step or the next chunk of the prompt each, and then new prompts
with what is left of the token budget. Online requests come before offline ones. The
tokens that remain at the end go to the sequences that are still in their prompt.
-/

namespace Xllm

open Contract

inductive SchedulerKind where
  | continuous
  | chunkedPrefill

/-- What happens to a scheduler: a request is added, the batch runs or clients leave (any
change of the world), or a batch is prepared. -/
inductive SchedulerOp (W : Type) where
  | addRequest (request : RequestId)
  | environment (world : W)
  | prepareBatch (rounds : Nat)

def SchedulerOp.added {W : Type} : SchedulerOp W → Option RequestId
  | .addRequest request => some request
  | _ => .none

namespace SchedulerState

open ServingWorld
open Sequence (subSize)

variable {W : Type} [ServingWorld W] (options : SchedulerOptions) (s : SchedulerState W)

/-- `allocate_shared_blocks_for`: while the prompt is computed, the prefix cache is
matched at a given number of chunks only. -/
def allocateSharedBlocksFor (sequence : SequenceId) : Except Check (SchedulerState W) :=
  let matching : Except Check (SchedulerState W) := do
    let w ← allocateShared s.world sequence
    .ok (s.setWorld w)
  if numKvBlocks s.world sequence = 0 then matching
  else if stage s.world sequence = .chunkedPrefill then
    let chunk := max options.maxTokensPerChunkForPrefill 64
    let totalChunkedSize := (numTokens s.world sequence + chunk - 1) / chunk
    if totalChunkedSize < options.chunkedMatchFrequency then matching
    else if options.chunkedMatchFrequency = 0 then .error .divisionByZero
    else
      let interval := (totalChunkedSize + options.chunkedMatchFrequency - 1) /
        options.chunkedMatchFrequency
      if interval = 0 then .error .divisionByZero
      else if kvCacheTokensNum s.world sequence / chunk % interval = 0 then matching
      else .ok s
  else .ok s

def maxHandleNumTokens (w : W) (sequence : SequenceId) (tokenBudget : Nat) : Nat :=
  let kvTokens := kvCacheTokens w sequence
  min (kvTokens + tokenBudget) (numTokens w sequence) +
    -- a sequence that decodes also verifies its speculative tokens
    if 0 < options.numSpeculativeTokens ∧ stage w sequence ≠ .chunkedPrefill ∧ 0 < kvTokens then
      options.minSpeculativeTokensRequired
    else 0

/-- `ChunkedPrefillScheduler::allocate_blocks_for`: whether it has got its blocks, and
the tokens that the sequence handles in this step. -/
def allocateBlocksFor (sequence : SequenceId) (tokenBudget : Nat) :
    Except Check (Bool × Nat × SchedulerState W) :=
  if tokenBudget ≤ options.minSpeculativeTokensRequired then .error .scheduling
  else do
    let s ← s.allocateSharedBlocksFor options sequence
    let kvTokens := kvCacheTokens s.world sequence
    let maxTokens := maxHandleNumTokens options s.world sequence tokenBudget
    if maxTokens ≤ kvTokens then .error .scheduling
    else do
      let (allocated, w) ← allocate s.world sequence maxTokens
      .ok (allocated, maxTokens - kvTokens, s.setWorld w)

/-- The tokens that a running sequence is taken to need: the next chunk of its prompt, or
one token and the speculative ones. -/
def runningTokens (w : W) (sequence : SequenceId) (assumeMaxTokens : Nat) : Nat :=
  if stage w sequence = .chunkedPrefill then
    min assumeMaxTokens (subSize (numTokens w sequence) (kvCacheTokensNum w sequence))
  else 1 + options.minSpeculativeTokensRequired

/-- A sequence that is still in its prompt is kept for `handle_remaining_budget`. -/
def addPrefillStage (sequence : SequenceId) : SchedulerState W :=
  if kvCacheTokensNum s.world sequence = 0 ∨ stage s.world sequence = .chunkedPrefill then
    { s with prefillStageSequences := s.prefillStageSequences ++ [sequence] }
  else s

/-- The grant of `handle_running_queue_requests` to one sequence. -/
def grantRunning (sequence : SequenceId) (grant : Grant) (s : SchedulerState W) :
    Except Check (Grant × SchedulerState W) :=
  let assumeMaxTokens := min options.maxTokensPerChunkForPrefill
    (subSize s.remainingTokenBudget grant.allocatedTokens)
  let kvTokens := kvCacheTokensNum s.world sequence
  let tokens := runningTokens options s.world sequence assumeMaxTokens
  if s.remainingSeqBudget < grant.allocatedSeqs + 1 ∨
      s.remainingTokenBudget < grant.allocatedTokens + tokens then .ok (grant.stop .budget, s)
  else
    let latency := latencyIf options.enableLatencyAwareSchedule
      (predictStepTimeOf s.world (tokens + kvTokens) kvTokens)
    if options.enableLatencyAwareSchedule = true ∧
        s.latencyBudget < s.estimateLatency + grant.allocatedEstimateLatency + latency then
      .ok (grant.stop .budget, s)
    else do
      let (allocated, handled, s) ← s.allocateBlocksFor options sequence assumeMaxTokens
      if allocated = false then .ok (grant.stop .blocks, s)
      else .ok (grant.add sequence handled latency, s.addPrefillStage sequence)

/-- One round of the loop of `handle_running_queue_requests`. A preempted request is
taken from `running_queue_`, whichever queue it is in. -/
def runningRound (side : Side) : Except Check (Bool × SchedulerState W) :=
  match s.running.get side with
  | [] => .ok (false, s)
  | request :: _ => do
      let (grant, s) ← grantEach (grantRunning options) (sequences s.world request) {} s
      s.settleRunning options side .online request grant

def handleRunningQueueRequests (rounds : Nat) (side : Side) : Except Check (SchedulerState W) :=
  loop (fun s => s.runningGoesOn options side) (fun s => s.runningRound options side)
    .roundsExceeded rounds s

/-- The grant of `handle_prefill_requests` to one sequence. Its latencies are whole
numbers. -/
def grantChunk (request : RequestId) (sequence : SequenceId) (grant : Grant)
    (s : SchedulerState W) : Except Check (Grant × SchedulerState W) :=
  let assumeMaxTokens := min options.maxTokensPerChunkForPrefill
    (subSize s.remainingTokenBudget grant.allocatedTokens)
  let tokens := min assumeMaxTokens (numTokens s.world sequence)
  if s.remainingTokenBudget < grant.allocatedTokens + tokens ∨
      s.remainingSeqBudget < grant.allocatedSeqs + 1 then .ok (grant.stop .budget, s)
  else
    let kvTokens := kvCacheTokensNum s.world sequence
    let latency := latencyIf options.enableLatencyAwareSchedule
      (predictStepTimeOf s.world (tokens + kvTokens) kvTokens).floor
    if options.enableLatencyAwareSchedule = true ∧
        s.latencyBudget < s.estimateLatency + grant.allocatedEstimateLatency + latency then
      .ok (grant.stop .budget, s)
    else do
      let (allocated, handled, s) ← s.allocateBlocksFor options sequence tokens
      let (allocated, s) ← s.evictAndAllocate options allocated request sequence
        (handled + kvCacheTokensNum s.world sequence)
      if allocated = false then do
        let s ← s.deallocateSequences [sequence]
        .ok (grant.stop .blocks, s)
      else .ok (grant.add sequence handled latency, s)

/-- A waiting request is scheduled, or its grants are taken back. -/
def settleChunk (side : Side) (request : RequestId) (grant : Grant) :
    Except Check (Bool × SchedulerState W) := do
  let (again, s) ← s.settlePrefill side request grant
  .ok (again, if grant.stopped.isSome then s
    else { s with
      prefillStageSequences := s.prefillStageSequences ++ grant.candidates.map Prod.fst })

/-- One round of the loop of `handle_prefill_requests`. -/
def chunkRound (side : Side) : Except Check (Bool × SchedulerState W) :=
  match s.waiting.get side with
  | [] => .ok (false, s)
  | request :: _ =>
      if requestFinished s.world request = true ∨ requestCancelled s.world request = true then do
        let s ← s.finishWaiting side request
        .ok (true, s)
      else if requestPreempted s.world request = false ∧
          (sequences s.world request).length ≠ 1 then .error .scheduling
      else do
        let (grant, s) ← grantEach (grantChunk options request) (sequences s.world request) {} s
        s.settleChunk side request grant

def handleChunkRequests (rounds : Nat) (side : Side) : Except Check (SchedulerState W) := do
  let s ← loop (fun s => s.prefillGoesOn side) (fun s => s.chunkRound options side)
    .roundsExceeded rounds s
  s.refuseWaiting side

/-- The call of `handle_prefill_requests`: it is left out when a budget is exhausted,
and without running sequences the latency budget does not count. -/
def handleNewPrompts (rounds : Nat) (side : Side) : Except Check (SchedulerState W) :=
  if s.budgetExhausted = true ∨ s.blocksExhausted = true then .ok s
  else
    let s := if s.runningSequences = [] then { s with latencyBudget := 2 ^ 31 - 1 } else s
    s.handleChunkRequests options rounds side

/-- The loop of `handle_remaining_budget` over `running_sequences_`: `done` are the
sequences before the loop variable, `prefill` the prefill sequences from
`prefill_stage_seq_idx` on. -/
def grantRemaining : List (SequenceId × Nat) → List (SequenceId × Nat) → List SequenceId →
    SchedulerState W → Except Check (SchedulerState W)
  | done, [], _, s => .ok { s with runningSequences := done }
  | done, rest, [], s => .ok { s with runningSequences := done ++ rest }
  | done, (sequence, budget) :: rest, first :: prefill, s =>
      if first ≠ sequence then grantRemaining (done ++ [(sequence, budget)]) rest
        (first :: prefill) s
      else
        let remaining := s.remainingTokenBudget + budget
        let s := { s with remainingTokenBudget := remaining }
        let unchanged := done ++ (sequence, budget) :: rest
        let estimate := s.estimateLatency - predictStepTime s.world sequence
        let latency := predictStepTimeOf s.world remaining (kvCacheTokensNum s.world sequence)
        if options.enableLatencyAwareSchedule = true ∧ s.latencyBudget < estimate + latency then
          .ok { s with estimateLatency := estimate, runningSequences := unchanged }
        else do
          let s := if options.enableLatencyAwareSchedule then
            { s with estimateLatency := estimate + latency } else s
          let (allocated, handled, s) ← s.allocateBlocksFor options sequence remaining
          if allocated = false then
            .ok { s with blocksExhausted := true, runningSequences := unchanged }
          else if remaining < handled then .error .scheduling
          else
            let s := { s with remainingTokenBudget := remaining - handled }
            if s.remainingTokenBudget = 0 then
              .ok { s with runningSequences := done ++ (sequence, handled) :: rest }
            else grantRemaining (done ++ [(sequence, handled)]) rest prefill s

def handleRemainingBudget : Except Check (SchedulerState W) :=
  grantRemaining options [] s.runningSequences s.prefillStageSequences s

def chunkTokenBudget : Nat :=
  if options.enableProfileTokenBudget then profileTokenBudget s.world else options.maxTokensPerBatch

def prepareBatchChunked (rounds : Nat) : Except Check (SchedulerState W) := do
  let s ← s.readRequestQueue options
  let s ← s.handleFinishedRequests
  let s ← s.requeueAll options s.runningRequests.reverse false
  let s := s.clearBatch options.maxGlobalTpotMs (s.chunkTokenBudget options) options.maxSeqsPerBatch
  let s ← s.handleRunningQueueRequests options rounds .online
  let s ← s.handleNewPrompts options rounds .online
  let s ← if 0 < s.remainingTokenBudget then s.handleRunningQueueRequests options rounds .offline
    else .ok s
  let s ← s.handleNewPrompts options rounds .offline
  let s ← if 0 < s.remainingTokenBudget ∧ s.estimateLatency < s.latencyBudget then
      s.handleRemainingBudget options
    else .ok s
  .ok s.answerFinished

def step (kind : SchedulerKind) (options : SchedulerOptions) (s : SchedulerState W) :
    SchedulerOp W → Except Check (SchedulerState W)
  | .addRequest request => .ok { s with requestQueue := s.requestQueue ++ [request] }
  | .environment world => .ok (s.setWorld world)
  | .prepareBatch rounds =>
      match kind with
      | .continuous => s.prepareBatchContinuous options rounds
      | .chunkedPrefill => s.prepareBatchChunked options rounds

end SchedulerState

end Xllm
