import Mathlib.Algebra.GroupWithZero.Nat
import Xllm.Request.Sequence

/-!
# The schedulers' view of a serving process

The schedulers move requests between queues, grant their sequences tokens and ask
the key-value cache manager for blocks. `ServingWorld` lists what they read of
requests, sequences, the cache manager and the latency profile, and the calls that
change these. A priority queue may order its requests in any way, but it keeps them.
Latencies are rational numbers.

A scheduler holds its requests in an online and an offline waiting queue, an online
and an offline running queue, and the requests of the batch. `SchedulerState` also
has the local variables of `prepare_batch`, and three records for reasoning that the
code does not keep: the requests that have been answered, the circumstances in which
one was refused, and what each pop of a queue has removed.
-/

namespace Xllm

open Contract

/-- `std::shared_ptr<Request>`, by identity. -/
abbrev RequestId := Nat

abbrev SequenceId := Nat

/-- What a scheduler reads and calls. -/
class ServingWorld (W : Type) where
  sequences : W → RequestId → List SequenceId
  requestFinished : W → RequestId → Bool
  requestCancelled : W → RequestId → Bool
  requestPreempted : W → RequestId → Bool
  offline : RequestId → Bool
  checkBeamSearch : RequestId → Bool
  sequenceFinished : W → SequenceId → Bool
  numTokens : W → SequenceId → Nat
  kvCacheTokensNum : W → SequenceId → Nat
  hostKvCacheTokensNum : W → SequenceId → Nat
  stage : W → SequenceId → SequenceStage
  numKvBlocks : W → SequenceId → Nat
  sharedKvBlocksNum : W → SequenceId → Nat
  /-- The shared blocks of a sequence whose `ref_count` is at most two. -/
  numUnsharedCached : W → SequenceId → Nat
  /-- `check_beam_search`, source blocks and `need_swap`: a swap may take a block. -/
  needsBeamSwap : W → SequenceId → Bool
  currentMaxTokensCapacity : W → SequenceId → Nat
  blockSize : W → Nat
  numUsedBlocks : W → Nat
  /-- `get_sequence_free_blocks_for_rank`. -/
  numFreeBlocks : W → SequenceId → Nat
  kvCacheUtilization : W → Rat
  predictStepTime : W → SequenceId → Rat
  predictStepTimeOf : W → Nat → Nat → Rat
  constantOverhead : W → Rat
  profileTokenBudget : W → Nat
  /-- The order of a waiting queue, best request first. -/
  order : W → List RequestId → List RequestId
  order_perm : ∀ w queue, (order w queue).Perm queue
  /-- The order of a running queue that is no FCFS queue, after an insertion. -/
  insertRunning : W → List RequestId → RequestId → List RequestId
  insertRunning_perm : ∀ w queue request, (insertRunning w queue request).Perm (request :: queue)
  allocate : W → SequenceId → Nat → Except Check (Bool × W)
  deallocate : W → SequenceId → Except Check W
  allocateShared : W → SequenceId → Except Check W
  cache : W → SequenceId → Except Check W
  ifCacheBlockForPrefill : W → SequenceId → Bool × W
  setPreempted : W → RequestId → W
  expandSequences : W → RequestId → Bool → Bool × W
  updatePrefetchResult : W → RequestId → Bool × W
  updateConnectionStatus : W → RequestId → W

/-- `ContinuousScheduler::Options` and the flags that the schedulers read. -/
structure SchedulerOptions where
  maxTokensPerBatch : Nat := 0
  maxSeqsPerBatch : Nat := 0
  maxTokensPerChunkForPrefill : Nat := 0
  numSpeculativeTokens : Nat := 0
  enableScheduleOverlap : Bool := false
  enableLatencyAwareSchedule : Bool := false
  enableOnlinePreemptOffline : Bool := true
  enableProfileTokenBudget : Bool := false
  enableDisaggPd : Bool := false
  isPrefillInstance : Bool := false
  fcfs : Bool := true
  enablePrefixCache : Bool := true
  enableChunkedPrefill : Bool := true
  cpSize : Nat := 1
  maxGlobalTtftMs : Rat := 0
  maxGlobalTpotMs : Rat := 0
  prefillSchedulingMemoryUsageThreshold : Rat := 0
  chunkedMatchFrequency : Nat := 0

def SchedulerOptions.minSpeculativeTokensRequired (options : SchedulerOptions) : Nat :=
  if options.enableScheduleOverlap then options.numSpeculativeTokens * 2
  else options.numSpeculativeTokens

/-- Whether decoding requests are checked against the latency budget. -/
def SchedulerOptions.decodeLatency (options : SchedulerOptions) : Bool :=
  options.enableLatencyAwareSchedule && !options.isPrefillInstance

def latencyIf (aware : Bool) (latency : Rat) : Rat := if aware then latency else 0

/-- The queues of online and of offline requests. -/
inductive Side where
  | online
  | offline
  deriving DecidableEq

structure Sides where
  online : List RequestId := []
  offline : List RequestId := []
  deriving DecidableEq

namespace Sides

def get (queues : Sides) : Side → List RequestId
  | .online => queues.online
  | .offline => queues.offline

def set (queues : Sides) (side : Side) (queue : List RequestId) : Sides :=
  match side with
  | .online => { queues with online := queue }
  | .offline => { queues with offline := queue }

variable (queues : Sides) (side : Side) (queue : List RequestId) (request : RequestId)

/-- How often a request is in the queues. -/
def count : Nat := queues.online.count request + queues.offline.count request

@[simp] theorem get_set : (queues.set side queue).get side = queue := by
  cases side <;> rfl

@[simp] theorem get_set_of_ne {other : Side} (h : other ≠ side) :
    (queues.set side queue).get other = queues.get other := by
  cases side <;> cases other <;> first | rfl | exact absurd rfl h

theorem count_set : (queues.set side queue).count request + (queues.get side).count request =
    queues.count request + queue.count request := by
  cases side with
  | online =>
      simp only [count, set, get]
      omega
  | offline =>
      simp only [count, set, get]
      omega

/-- How many requests are in the queues. -/
def length : Nat := queues.online.length + queues.offline.length

theorem length_set : (queues.set side queue).length + (queues.get side).length =
    queues.length + queue.length := by
  cases side with
  | online =>
      simp only [length, set, get]
      omega
  | offline =>
      simp only [length, set, get]
      omega

theorem length_get_le : (queues.get side).length ≤ queues.length := by
  cases side with
  | online => exact Nat.le_add_right _ _
  | offline => exact Nat.le_add_left _ _

theorem count_get_le : (queues.get side).count request ≤ queues.count request := by
  cases side with
  | online => exact Nat.le_add_right _ _
  | offline => exact Nat.le_add_left _ _

end Sides

/-- Why the grants to the sequences of a request stopped. -/
inductive Exhausted where
  | budget
  | blocks
  deriving DecidableEq

/-- A pop of a queue: the request that the code has inspected, and the one that it removes. -/
structure Pop where
  inspected : RequestId
  removed : RequestId
  deriving DecidableEq

/-- A waiting request is refused. -/
structure Refusal (W : Type) where
  request : RequestId
  reason : Exhausted
  world : W

/-- The members of a scheduler and the variables of `prepare_batch`. -/
structure SchedulerState (W : Type) where
  world : W
  requestQueue : List RequestId := []
  waiting : Sides := {}
  running : Sides := {}
  runningRequests : List RequestId := []
  /-- `running_sequences_`, each with its entry of `running_sequences_budgets_`. -/
  runningSequences : List (SequenceId × Nat) := []
  lastStepPrefill : Bool := false
  latencyBudget : Rat := 0
  estimateLatency : Rat := 0
  remainingTokenBudget : Nat := 0
  remainingSeqBudget : Nat := 0
  finishedRequests : List RequestId := []
  prefillStageSequences : List SequenceId := []
  budgetExhausted : Bool := false
  blocksExhausted : Bool := false
  answered : List RequestId := []
  refusals : List (Refusal W) := []
  pops : List Pop := []

structure Grant where
  candidates : List (SequenceId × Nat) := []
  allocatedTokens : Nat := 0
  allocatedSeqs : Nat := 0
  allocatedEstimateLatency : Rat := 0
  prefillStage : List SequenceId := []
  stopped : Option Exhausted := .none

def Grant.add (grant : Grant) (sequence : SequenceId) (tokens : Nat) (latency : Rat) : Grant :=
  { grant with
    candidates := grant.candidates ++ [(sequence, tokens)]
    allocatedTokens := grant.allocatedTokens + tokens
    allocatedSeqs := grant.allocatedSeqs + 1
    allocatedEstimateLatency := grant.allocatedEstimateLatency + latency }

def Grant.stop (grant : Grant) (reason : Exhausted) : Grant := { grant with stopped := some reason }

namespace SchedulerState

open ServingWorld

variable {W : Type} [ServingWorld W] (options : SchedulerOptions) (s : SchedulerState W)

def setWorld (w : W) : SchedulerState W := { s with world := w }

def sideOf (request : RequestId) : Side :=
  if offline (W := W) request then .offline else .online

def pushWaiting (side : Side) (request : RequestId) : SchedulerState W :=
  { s with waiting := s.waiting.set side (order s.world (request :: s.waiting.get side)) }

/-- `pop` of a waiting queue, after `inspected` has been read from its top. -/
def popWaiting (side : Side) (inspected : RequestId) : SchedulerState W :=
  { s with
    waiting := s.waiting.set side (order s.world (s.waiting.get side).tail)
    pops := s.pops ++ (s.waiting.get side).head?.toList.map fun removed => ⟨inspected, removed⟩ }

/-- `push` of a running queue. `create_running_queue` moves the comparator into the
online queue before it hands it to the offline one, which therefore cannot compare. -/
def pushRunning (side : Side) (request : RequestId) (ifBack : Bool) :
    Except Check (SchedulerState W) :=
  let queue := s.running.get side
  if options.fcfs then
    .ok { s with
      running := s.running.set side (if ifBack then queue ++ [request] else request :: queue) }
  else
    match side with
    | .online => .ok { s with running := s.running.set side (insertRunning s.world queue request) }
    | .offline =>
        if queue = [] then .ok { s with running := s.running.set side [request] }
        else .error .outOfBounds

/-- `pop_top` of a running queue, which must not be empty. -/
def popTop (side : Side) (inspected : RequestId) : Except Check (SchedulerState W) :=
  match s.running.get side with
  | [] => .error .outOfBounds
  | removed :: queue => .ok { s with
      running := s.running.set side queue
      pops := s.pops ++ [⟨inspected, removed⟩] }

/-- `pop_back` of a running queue, which must not be empty. -/
def popBack (side : Side) (inspected : RequestId) : Except Check (SchedulerState W) :=
  match (s.running.get side).getLast? with
  | .none => .error .outOfBounds
  | some removed => .ok { s with
      running := s.running.set side (s.running.get side).dropLast
      pops := s.pops ++ [⟨inspected, removed⟩] }

def deallocateRequest (request : RequestId) : Except Check (SchedulerState W) := do
  let w ← (sequences s.world request).foldlM deallocate s.world
  .ok (s.setWorld w)

def deallocateSequences (seqs : List SequenceId) : Except Check (SchedulerState W) := do
  let w ← seqs.foldlM deallocate s.world
  .ok (s.setWorld w)

def fail (request : RequestId) : SchedulerState W := { s with answered := s.answered ++ [request] }

def schedule (request : RequestId) (grant : Grant) : SchedulerState W :=
  { s with
    runningRequests := s.runningRequests ++ [request]
    runningSequences := s.runningSequences ++ grant.candidates
    remainingTokenBudget := Sequence.subSize s.remainingTokenBudget grant.allocatedTokens
    remainingSeqBudget := Sequence.subSize s.remainingSeqBudget grant.allocatedSeqs
    estimateLatency := s.estimateLatency + grant.allocatedEstimateLatency }

/-- Preempt the last request of a running queue: `victims` is the queue it is inspected
in, `popped` the queue that is popped, and `into` the waiting queue it goes to. -/
def preemptBack (victims popped : Side) (into : RequestId → Side) :
    Except Check (SchedulerState W) :=
  match (s.running.get victims).getLast? with
  | .none => .error .outOfBounds
  | some request => do
      let s ← s.deallocateRequest request
      let s ← s.popBack popped request
      let s := s.setWorld (setPreempted s.world request)
      .ok (s.pushWaiting (into request) request)

def preemptOffline : Nat → SchedulerState W → Except Check (SchedulerState W)
  | 0, s => .ok s
  | n + 1, s => do
      let s ← s.preemptBack .offline .offline fun _ => .offline
      preemptOffline n s

/-- The blocks that a sequence gives back to the free list or the cache. -/
def numBlocksToEvict (w : W) (sequence : SequenceId) : Except Check Nat :=
  if sharedKvBlocksNum w sequence ≤ numKvBlocks w sequence then
    .ok (numUnsharedCached w sequence + (numKvBlocks w sequence - sharedKvBlocksNum w sequence))
  else .error .scheduling

/-- The loop of `check_if_enough_to_evict` over the requests from the back: how many of
them have to go. -/
def numRequestsToEvict (w : W) (numBlocksNeeded : Nat) :
    List RequestId → Nat → Nat → Except Check (Option Nat)
  | [], _, _ => .ok .none
  | request :: rest, count, blocks => do
      let more ← (sequences w request).mapM (numBlocksToEvict w)
      let blocks := blocks + more.sum
      if numBlocksNeeded ≤ blocks then .ok (some (count + 1))
      else numRequestsToEvict w numBlocksNeeded rest (count + 1) blocks

/-- `check_if_enough_to_evict` on the offline running queue. -/
def checkIfEnoughToEvict (maxHandleNumTokens : Nat) : Except Check (Option Nat) :=
  numRequestsToEvict s.world ((maxHandleNumTokens + blockSize s.world - 1) / blockSize s.world)
    s.running.offline.reverse 0 0

/-- An online prefill that got no blocks preempts offline requests, if these hold
enough, and asks again. -/
def evictAndAllocate (allocated : Bool) (request : RequestId) (sequence : SequenceId)
    (numTokens : Nat) : Except Check (Bool × SchedulerState W) :=
  if allocated then .ok (true, s)
  else if options.enableOnlinePreemptOffline = true ∧ offline (W := W) request = false ∧
      s.running.offline ≠ [] then do
    match ← s.checkIfEnoughToEvict numTokens with
    | .none => .ok (false, s)
    | some count =>
        let s ← preemptOffline count s
        let (allocated, w) ← allocate s.world sequence numTokens
        .ok (allocated, s.setWorld w)
  else .ok (false, s)

/-- The loops over the sequences of a request: `one` grants a sequence its tokens, and
the first refusal ends the loop. -/
def grantEach (one : SequenceId → Grant → SchedulerState W →
    Except Check (Grant × SchedulerState W)) :
    List SequenceId → Grant → SchedulerState W → Except Check (Grant × SchedulerState W)
  | [], grant, s => .ok (grant, s)
  | sequence :: rest, grant, s =>
      if sequenceFinished s.world sequence then grantEach one rest grant s
      else do
        let (grant, s) ← one sequence grant s
        if grant.stopped.isSome then .ok (grant, s) else grantEach one rest grant s

/-- A grant to one sequence keeps `I`, which speaks of the sequences that are left, or it
ends the loop with `Q`. -/
theorem ensures_grantEach
    {one : SequenceId → Grant → SchedulerState W → Except Check (Grant × SchedulerState W)}
    {E : Check → Prop} {I : List SequenceId → Grant → SchedulerState W → Prop}
    {Q : Grant → SchedulerState W → Prop} {seqs : List SequenceId} {grant : Grant}
    {s : SchedulerState W}
    (skipped : ∀ sequence rest grant s, I (sequence :: rest) grant s → I rest grant s)
    (granted : ∀ sequence rest grant s, I (sequence :: rest) grant s →
      Ensures (one sequence grant s) E (fun r =>
        (r.1.stopped.isSome = true → Q r.1 r.2) ∧ (r.1.stopped = .none → I rest r.1 r.2)))
    (done : ∀ grant s, I [] grant s → Q grant s) (start : I seqs grant s) :
    Ensures (grantEach one seqs grant s) E (fun r => Q r.1 r.2) := by
  induction seqs generalizing grant s with
  | nil => exact done grant s start
  | cons sequence rest ih =>
      rw [grantEach]
      split
      · exact ih (skipped sequence rest grant s start)
      · refine (granted sequence rest grant s start).bind ?_
        rintro ⟨grant, s⟩ ⟨hstop, hgo⟩
        dsimp only
        split
        · rename_i h
          exact hstop h
        · rename_i h
          exact ih (hgo (Option.not_isSome_iff_eq_none.1 h))

/-- When sequences have been added, the blocks of the first one are cached for them. -/
def cacheExpanded (expanded : Bool) (w : W) (request : RequestId) : Except Check W :=
  if expanded then
    match sequences w request with
    | [] => .error .outOfBounds
    | sequence :: _ => cache w sequence
  else .ok w

def handleRunningRequests (request : RequestId) : Except Check (SchedulerState W) :=
  if requestFinished s.world request = true ∨ requestCancelled s.world request = true then
    .error .scheduling
  else do
    let (expanded, w) := expandSequences s.world request true
    let w ← cacheExpanded expanded w request
    let w ← ((sequences w request).filter (sequenceFinished w)).foldlM deallocate w
    .ok (s.setWorld w)

/-- Without a prefix cache the sequences of a request are expanded at once. -/
def expandOnAdmit (w : W) (request : RequestId) : W :=
  if options.enablePrefixCache then w else (expandSequences w request false).2

/-- A request from `request_queue_`. Requests of a prefill instance have tokens in the
cache already. -/
def admitRequest (request : RequestId) : Except Check (SchedulerState W) :=
  let s := s.setWorld (expandOnAdmit options s.world request)
  match sequences s.world request with
  | [] => .error .outOfBounds
  | sequence :: _ =>
      if kvCacheTokensNum s.world sequence = 0 then
        .ok (s.pushWaiting (sideOf (W := W) request) request)
      else .ok { s with runningRequests := s.runningRequests ++ [request] }

def readRequestQueue : Except Check (SchedulerState W) :=
  s.requestQueue.foldlM (fun s request => admitRequest options s request)
    { s with requestQueue := [] }

/-- Finished and cancelled requests of the last batch give up their blocks. -/
def collectFinished (request : RequestId) : Except Check (SchedulerState W) := do
  let s := s.setWorld (updateConnectionStatus s.world request)
  if requestFinished s.world request = true ∨ requestCancelled s.world request = true then
    let s ← s.deallocateRequest request
    .ok { s with finishedRequests := s.finishedRequests ++ [request] }
  else .ok { s with runningRequests := request :: s.runningRequests }

/-- The loop over `running_requests_` from the back; what is left keeps its order. -/
def handleFinishedRequests : Except Check (SchedulerState W) :=
  s.runningRequests.reverse.foldlM (fun s request => collectFinished s request)
    { s with runningRequests := [], finishedRequests := [] }

/-- A request of the last batch goes back to its running queue. -/
def requeue (request : RequestId) (ifBack : Bool) : Except Check (SchedulerState W) := do
  let s ← s.handleRunningRequests request
  s.pushRunning options (sideOf (W := W) request) request ifBack

/-- The running requests go back to the running queues in the given order. -/
def requeueAll (requests : List RequestId) (ifBack : Bool) : Except Check (SchedulerState W) :=
  requests.foldlM (fun s request => requeue options s request ifBack)
    { s with runningRequests := [] }

def clearBatch (latencyBudget : Rat) (tokenBudget seqBudget : Nat) : SchedulerState W :=
  { s with
    lastStepPrefill := false
    runningRequests := []
    runningSequences := []
    latencyBudget := latencyBudget
    estimateLatency := constantOverhead s.world
    remainingTokenBudget := tokenBudget
    remainingSeqBudget := seqBudget
    prefillStageSequences := []
    budgetExhausted := false
    blocksExhausted := false }

def answerFinished : SchedulerState W :=
  { s with answered := s.answered ++ s.finishedRequests, finishedRequests := [] }

end SchedulerState

end Xllm
