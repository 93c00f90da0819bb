import Xllm.Scheduler.World

/-!
# The continuous scheduler

`ContinuousScheduler::prepare_batch` schedules waiting requests first, online before
offline, each with its whole prompt. Only when none was scheduled does it schedule
requests of the running queues, one token and the speculative tokens per sequence.
When the blocks do not suffice, requests with lower priority are preempted.
-/

namespace Xllm

open Contract

namespace SchedulerState

open ServingWorld

variable {W : Type} [ServingWorld W] (options : SchedulerOptions) (s : SchedulerState W)

def maybeAlignCpPrefillTokens (w : W) (sequence : SequenceId) (numTokens : Nat) : Nat :=
  if options.cpSize ≤ 1 ∨ numTokens = 0 then numTokens
  else if options.enableChunkedPrefill then numTokens
  else if stage w sequence = .decode then numTokens
  else Sequence.alignUp numTokens (options.cpSize * 2)

def kvCacheTokens (w : W) (sequence : SequenceId) : Nat :=
  max (kvCacheTokensNum w sequence) (hostKvCacheTokensNum w sequence)

def numNeedComputeTokens (w : W) (sequence : SequenceId) : Nat :=
  Sequence.subSize (numTokens w sequence) (kvCacheTokens w sequence)

def grantPrefill (request : RequestId) (sequence : SequenceId) (grant : Grant)
    (s : SchedulerState W) : Except Check (Grant × SchedulerState W) :=
  let tokens := maybeAlignCpPrefillTokens options s.world sequence
    (numNeedComputeTokens s.world sequence)
  let target := kvCacheTokens s.world sequence + tokens
  if s.remainingTokenBudget < grant.allocatedTokens + tokens ∨
      s.remainingSeqBudget < grant.allocatedSeqs + 1 then .ok (grant.stop .budget, s)
  else do
    let (allocated, w) ← allocate s.world sequence target
    let (allocated, s) ← (s.setWorld w).evictAndAllocate options allocated request sequence target
    if allocated = false then do
      -- the shared prefix blocks are released
      let s ← s.deallocateSequences [sequence]
      .ok (grant.stop .blocks, s)
    else
      let latency := latencyIf options.enableLatencyAwareSchedule (predictStepTime s.world sequence)
      if options.enableLatencyAwareSchedule = true ∧
          s.latencyBudget < s.estimateLatency + grant.allocatedEstimateLatency + latency then do
        let s ← s.deallocateSequences [sequence]
        .ok (grant.stop .budget, s)
      else .ok (grant.add sequence tokens latency, s)

/-- The condition of the loop over a waiting queue. -/
def prefillGoesOn (side : Side) : Bool :=
  s.waiting.get side ≠ [] ∧ 0 < s.remainingSeqBudget ∧ 0 < s.remainingTokenBudget ∧
    s.estimateLatency < s.latencyBudget

/-- A waiting request is scheduled, or its grants are taken back. -/
def settlePrefill (side : Side) (request : RequestId) (grant : Grant) :
    Except Check (Bool × SchedulerState W) :=
  match grant.stopped with
  | some reason => do
      let s ← s.deallocateSequences (grant.candidates.map Prod.fst)
      .ok (false, match reason with
        | .budget => { s with budgetExhausted := true }
        | .blocks => { s with blocksExhausted := true })
  | .none => .ok (true, (s.popWaiting side request).schedule request grant)

def finishWaiting (side : Side) (request : RequestId) : Except Check (SchedulerState W) := do
  let s ← s.deallocateRequest request
  .ok ({ s with finishedRequests := s.finishedRequests ++ [request] }.popWaiting side
    request)

def prefillRound (side : Side) : Except Check (Bool × SchedulerState W) :=
  match s.waiting.get side with
  | [] => .ok (false, s)
  | request :: _ =>
      if options.enableDisaggPd = false ∧
          options.prefillSchedulingMemoryUsageThreshold ≤ kvCacheUtilization s.world then
        .ok (false, { s with blocksExhausted := true })
      else if requestFinished s.world request = true ∨
        requestCancelled s.world request = true then do
        let s ← s.finishWaiting side request
        .ok (true, s)
      else if requestPreempted s.world request = false ∧
          (sequences s.world request).length ≠ 1 then .error .scheduling
      else do
        let (ready, w) := updatePrefetchResult s.world request
        let s := s.setWorld w
        if ready = false then .ok (true, (s.popWaiting side request).pushWaiting side request)
        else do
          let (grant, s) ← grantEach (grantPrefill options request) (sequences s.world request) {} s
          s.settlePrefill side request grant

/-- The end of `handle_prefill_requests`: the best waiting request is refused when
nothing is scheduled and the online running queue is empty. -/
def refuseWaiting (side : Side) : Except Check (SchedulerState W) :=
  match s.waiting.get side with
  | [] => .ok s
  | request :: _ =>
      if s.runningSequences = [] ∧ s.running.online = [] then do
        let refusal := fun reason : Exhausted =>
          ({ request := request, reason := reason, world := s.world } : Refusal W)
        let s := s.popWaiting side request
        let s ← s.deallocateRequest request
        if s.blocksExhausted then
          .ok ({ s with refusals := s.refusals ++ [refusal .blocks] }.fail request)
        else if s.budgetExhausted then
          .ok ({ s with refusals := s.refusals ++ [refusal .budget] }.fail request)
        else .error .unexpectedWaiting
      else .ok s

def handlePrefillRequests (rounds : Nat) (side : Side) : Except Check (SchedulerState W) := do
  let s ← loop (fun s => s.prefillGoesOn side) (fun s => s.prefillRound options side)
    .roundsExceeded rounds { s with budgetExhausted := false, blocksExhausted := false }
  let s ← s.refuseWaiting side
  .ok (if s.runningSequences = [] then s else { s with lastStepPrefill := true })

def cacheAfterPrefill (sequence : SequenceId) : Except Check (SchedulerState W) := do
  let (ended, w) := ifCacheBlockForPrefill s.world sequence
  if ended then do
    let w ← cache w sequence
    .ok (s.setWorld w)
  else .ok (s.setWorld w)

def grantDecode (sequence : SequenceId) (grant : Grant) (s : SchedulerState W) :
    Except Check (Grant × SchedulerState W) :=
  let latency := latencyIf options.decodeLatency (predictStepTime s.world sequence)
  if options.decodeLatency = true ∧
      s.latencyBudget < s.estimateLatency + grant.allocatedEstimateLatency + latency then
    .ok (grant.stop .budget, s)
  else if s.remainingTokenBudget ≤ grant.allocatedTokens + options.minSpeculativeTokensRequired ∨
      s.remainingSeqBudget ≤ grant.allocatedSeqs then .ok (grant.stop .budget, s)
  else do
    let (allocated, w) ← allocate s.world sequence
      (numTokens s.world sequence + options.minSpeculativeTokensRequired)
    let s := s.setWorld w
    if allocated = false then .ok (grant.stop .blocks, s)
    else do
      let s ← s.cacheAfterPrefill sequence
      .ok (grant.add sequence (options.minSpeculativeTokensRequired + 1) latency, s)

def estimateDecodeExtraBlocks (w : W) (sequence : SequenceId) (updatedNumTokens : Nat) : Nat :=
  let numBlocksNeeded := (updatedNumTokens + blockSize w - 1) / blockSize w
  if numKvBlocks w sequence < numBlocksNeeded then numBlocksNeeded - numKvBlocks w sequence
  else if needsBeamSwap w sequence then 1 else 0

def beamLatencyFits : List SequenceId → Rat → Bool
  | [], _ => true
  | sequence :: rest, allocated =>
      let latency := predictStepTime s.world sequence
      if s.latencyBudget < s.estimateLatency + allocated + latency then false
      else beamLatencyFits rest (allocated + latency)

def beamWithinBudget (active : List SequenceId) : Bool :=
  (options.minSpeculativeTokensRequired + 1) * active.length ≤ s.remainingTokenBudget ∧
    active.length ≤ s.remainingSeqBudget ∧
    (options.decodeLatency = true → s.beamLatencyFits active 0 = true)

def beamWithinBlocks (active : List SequenceId) : Bool :=
  match active with
  | [] => true
  | first :: _ =>
      (active.map fun sequence => estimateDecodeExtraBlocks s.world sequence
        (numTokens s.world sequence + options.minSpeculativeTokensRequired)).sum ≤
          numFreeBlocks s.world first

/-- The allocations of a beam, up to the first one that fails. -/
def allocateBeam :
    List SequenceId → Grant → SchedulerState W → Except Check (Bool × Grant × SchedulerState W)
  | [], grant, s => .ok (true, grant, s)
  | sequence :: rest, grant, s => do
      let (allocated, w) ← allocate s.world sequence
        (numTokens s.world sequence + options.minSpeculativeTokensRequired)
      let s := s.setWorld w
      if allocated = false then .ok (false, grant, s)
      else do
        let s ← s.cacheAfterPrefill sequence
        allocateBeam rest (grant.add sequence (options.minSpeculativeTokensRequired + 1) 0) s

def totalNumBlocks (w : W) (request : RequestId) : Nat :=
  ((sequences w request).map (numKvBlocks w)).sum

/-- The end of `handle_abnormal_request` for a request that gets nothing: `running_queue_`
is popped, whichever queue the request is in. -/
def failRunning (request : RequestId) : Except Check (SchedulerState W) := do
  let s ← s.popTop .online request
  let s ← s.deallocateRequest request
  .ok (s.fail request)

def handleAbnormalRequest (side : Side) (request : RequestId) (grant : Grant)
    (reason : Exhausted) : Except Check (SchedulerState W) :=
  if grant.candidates = [] then
    if s.runningSequences ≠ [] then .ok s
    else
      match reason with
      | .budget => s.failRunning request
      | .blocks =>
          if (s.running.get side).length ≠ 1 then .error .scheduling
          else if numUsedBlocks s.world ≠ totalNumBlocks s.world request then .ok s
          else s.failRunning request
  else if checkBeamSearch (W := W) request then .ok s
  else do
    let s ← s.popTop side request
    .ok (s.schedule request grant)

/-- What follows the grants to a running request. `popped` is the queue that is popped
when a request of `side` is preempted. -/
def settleRunning (side popped : Side) (request : RequestId) (grant : Grant) :
    Except Check (Bool × SchedulerState W) :=
  if s.remainingTokenBudget < grant.allocatedTokens ∨
    s.remainingSeqBudget < grant.allocatedSeqs then
    .error .scheduling
  else
    match grant.stopped with
    | .none => do
        let s ← s.popTop side request
        .ok (true, s.schedule request grant)
    | some .budget => do
        let s ← s.handleAbnormalRequest side request grant .budget
        .ok (false, { s with budgetExhausted := true })
    | some .blocks =>
        if options.enableOnlinePreemptOffline = true ∧ offline (W := W) request = false ∧
            s.running.offline ≠ [] then do
          let s ← s.preemptBack .offline .offline fun _ => .offline
          .ok (true, s)
        else if 1 < (s.running.get side).length then
          if (s.running.get side).getLast? = some request then .error .scheduling
          else do
            let s ← s.preemptBack side popped (sideOf (W := W))
            .ok (true, s)
        else do
          let s ← s.handleAbnormalRequest side request grant .blocks
          .ok (false, { s with blocksExhausted := true })

/-- A beam-search request at the top of a running queue. Without active sequences it is
popped and forgotten. -/
def beamRound (side : Side) (request : RequestId) : Except Check (Bool × SchedulerState W) :=
  let active := (sequences s.world request).filter fun sequence =>
    !sequenceFinished s.world sequence
  if active = [] then do
    let s ← s.popTop side request
    .ok (true, s)
  else if s.beamWithinBudget options active = false then
    s.settleRunning options side side request (({} : Grant).stop .budget)
  else if s.beamWithinBlocks options active = false then
    s.settleRunning options side side request (({} : Grant).stop .blocks)
  else do
    let (allocated, grant, s) ← allocateBeam options active {} s
    if allocated = false then do
      let s ← s.deallocateRequest request
      let s ← s.popTop side request
      let s := s.setWorld (setPreempted s.world request)
      .ok (true, s.pushWaiting (sideOf (W := W) request) request)
    else
      let latency := latencyIf options.decodeLatency
        ((grant.candidates.map Prod.fst).map (predictStepTime s.world)).sum
      s.settleRunning options side side request { grant with allocatedEstimateLatency := latency }

def decodeRound (side : Side) : Except Check (Bool × SchedulerState W) :=
  match s.running.get side with
  | [] => .ok (false, s)
  | request :: _ =>
      if checkBeamSearch (W := W) request then s.beamRound options side request
      else do
        let (grant, s) ← grantEach (grantDecode options) (sequences s.world request) {} s
        s.settleRunning options side side request grant

/-- The condition of the loops over a running queue. -/
def runningGoesOn (side : Side) : Bool :=
  s.running.get side ≠ [] ∧ options.minSpeculativeTokensRequired < s.remainingTokenBudget ∧
    s.estimateLatency < s.latencyBudget ∧ 0 < s.remainingSeqBudget

def handleDecodeRequests (rounds : Nat) (side : Side) : Except Check (SchedulerState W) :=
  loop (fun s => s.runningGoesOn options side) (fun s => s.decodeRound options side)
    .roundsExceeded rounds s

/-- The running requests go back to their queues: behind the others after a prefill,
before them after a decoding step. -/
def requeueContinuous : Except Check (SchedulerState W) :=
  if options.fcfs = true ∧ s.lastStepPrefill = false then
    s.requeueAll options s.runningRequests.reverse false
  else s.requeueAll options s.runningRequests true

def prepareBatchContinuous (rounds : Nat) : Except Check (SchedulerState W) := do
  let s ← s.readRequestQueue options
  let s ← s.handleFinishedRequests
  let s ← s.requeueContinuous options
  let s := s.clearBatch options.maxGlobalTtftMs options.maxTokensPerBatch
    (max options.maxSeqsPerBatch 1)
  let s ← s.handlePrefillRequests options rounds .online
  let s ← s.handlePrefillRequests options rounds .offline
  let s ← if s.runningSequences = [] then do
      let s ← { s with latencyBudget := options.maxGlobalTpotMs }.handleDecodeRequests options
        rounds .online
      s.handleDecodeRequests options rounds .offline
    else .ok s
  .ok s.answerFinished

end SchedulerState

end Xllm
