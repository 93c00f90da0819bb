import Xllm.Runtime.RawForwardInput

/-!
# Sending a request to a decode instance

`DisaggPDScheduler::dispatch_requests` writes a request into a `DisaggRequest` message and
`DisaggPDServiceImpl::generate_request` makes a request of it on the decode instance. The
message keeps what is set; a field that is not set is read as its default.

A set is the list of its elements, in the order in which they are visited. Two sets are
compared by their elements.
-/

namespace Xllm.DisaggPD

open SharedMemory (FloatBits Text RequestSamplingParam)

inductive RequestPriority where
  | default
  | high
  | normal
  | low
  deriving DecidableEq

structure SchedulerParam where
  offline : Bool := false
  ttltSloMs : Int32 := Int32.maxValue
  ttftSloMs : Int32 := Int32.maxValue
  tpotSloMs : Int32 := Int32.maxValue
  tpotPriorityWeight : Int32 := 1
  ttftPriorityWeight : Int32 := 1
  ttltPriorityWeight : Int32 := 1
  priorityWeight : Int32 := 1
  priority : RequestPriority := .normal
  deriving DecidableEq

structure StoppingChecker where
  maxGeneratedTokens : UInt64 := 5120
  maxContextLen : UInt64 := 0
  eosToken : Int32 := -1
  ignoreEos : Bool := false
  stopTokens : List Int32 := []
  stopSequences : List (List Int32) := []
  deriving DecidableEq

/-- `RequestState`, without what is bound to one instance. The constructors refuse fewer
candidates than results. -/
structure RequestState where
  samplingParam : RequestSamplingParam := {}
  schedulerParam : SchedulerParam := {}
  stoppingChecker : StoppingChecker := {}
  prompt : Text := []
  promptTokens : List Int32 := []
  stream : Bool := false
  seqCapacity : UInt64
  n : UInt64
  bestOf : UInt64
  echo : Bool := false
  skipSpecialTokens : Bool := true
  logprobs : Bool
  n_le_bestOf : n ≤ bestOf

structure Request where
  requestId : Text := []
  xRequestId : Text := []
  xRequestTime : Text := []
  serviceRequestId : Text := []
  sourceXserviceAddr : Text := []
  state : RequestState

structure DisaggRequest where
  reqId : Text := []
  serviceReqId : Text := []
  tokensNum : Int64 := 0
  prompt : Text := []
  stream : Bool := false
  xRequestId : Text := []
  xRequestTime : Text := []
  maxTokens : Int32 := 0
  maxContextLen : Int32 := 0
  seqCapacity : Int32 := 0
  ignoreEos : Bool := false
  eosTokenId : Int32 := 0
  stopTokenIds : List Int32 := []
  stopSequences : List (List Int32) := []
  n : Int32 := 0
  bestOf : Int32 := 0
  frequencyPenalty : FloatBits := .zero
  presencePenalty : FloatBits := .zero
  repetitionPenalty : FloatBits := .zero
  temperature : FloatBits := .zero
  topP : FloatBits := .zero
  topK : Int64 := 0
  logprobs : Bool := false
  topLogprobs : Int64 := 0
  isEmbeddings : Bool := false
  echo : Bool := false
  skipSpecialTokens : Bool := false
  promptTokens : List Int32 := []
  offline : Bool := false
  ttltSloMs : Int32 := 0
  priority : RequestPriority := .default
  ttftSloMs : Int32 := 0
  tpotSloMs : Int32 := 0
  tpotPriorityWeight : Int32 := 0
  ttftPriorityWeight : Int32 := 0
  ttltPriorityWeight : Int32 := 0
  priorityWeight : Int32 := 0
  sourceXserviceAddr : Text := []

/-- A `size_t` where an `int32_t` is expected. -/
def narrow (x : UInt64) : Int32 := Int32.ofInt x.toNat

/-- An `int32_t` where a `size_t` is expected. -/
def widen (y : Int32) : UInt64 := UInt64.ofInt y.toInt

/-- The writes of `dispatch_requests` for one request. -/
def encode (request : Request) : DisaggRequest :=
  let state := request.state
  { reqId := request.requestId
    serviceReqId := request.serviceRequestId
    sourceXserviceAddr := request.sourceXserviceAddr
    tokensNum := Int64.ofNat state.promptTokens.length
    prompt := state.prompt
    promptTokens := state.promptTokens
    stream := state.stream
    xRequestId := request.xRequestId
    xRequestTime := request.xRequestTime
    seqCapacity := narrow state.seqCapacity
    maxTokens := narrow state.stoppingChecker.maxGeneratedTokens
    maxContextLen := narrow state.stoppingChecker.maxContextLen
    ignoreEos := state.stoppingChecker.ignoreEos
    eosTokenId := state.stoppingChecker.eosToken
    stopTokenIds := state.stoppingChecker.stopTokens
    stopSequences := state.stoppingChecker.stopSequences
    n := narrow state.n
    bestOf := narrow state.bestOf
    frequencyPenalty := state.samplingParam.frequencyPenalty
    presencePenalty := state.samplingParam.presencePenalty
    repetitionPenalty := state.samplingParam.repetitionPenalty
    temperature := state.samplingParam.temperature
    topP := state.samplingParam.topP
    topK := state.samplingParam.topK
    logprobs := state.samplingParam.logprobs
    topLogprobs := state.samplingParam.topLogprobs
    isEmbeddings := state.samplingParam.isEmbeddings
    echo := state.echo
    skipSpecialTokens := state.skipSpecialTokens }

def decodeSamplingParam (req : DisaggRequest) : RequestSamplingParam where
  frequencyPenalty := req.frequencyPenalty
  presencePenalty := req.presencePenalty
  repetitionPenalty := req.repetitionPenalty
  temperature := req.temperature
  topP := req.topP
  topK := req.topK
  logprobs := req.logprobs
  topLogprobs := req.topLogprobs
  isEmbeddings := req.isEmbeddings

def decodeSchedulerParam (req : DisaggRequest) : SchedulerParam :=
  if req.offline then { offline := req.offline, priority := req.priority }
  else
    { offline := req.offline
      priority := req.priority
      ttftSloMs := req.ttftSloMs
      tpotSloMs := req.tpotSloMs
      ttltSloMs := req.ttltSloMs
      tpotPriorityWeight := req.tpotPriorityWeight
      ttftPriorityWeight := req.ttftPriorityWeight
      ttltPriorityWeight := req.ttltPriorityWeight
      priorityWeight := req.priorityWeight }

/-- `insert` of a set: an element that is there is not put in again. -/
def insertStopToken (stopTokens : List Int32) (stopTokenId : Int32) : List Int32 :=
  if stopTokenId ∈ stopTokens then stopTokens else stopTokens ++ [stopTokenId]

def decodeStoppingChecker (req : DisaggRequest) : StoppingChecker where
  maxGeneratedTokens := widen req.maxTokens
  maxContextLen := widen req.maxContextLen
  eosToken := req.eosTokenId
  ignoreEos := req.ignoreEos
  stopTokens := req.stopTokenIds.foldl insertStopToken []
  stopSequences := req.stopSequences

/-- `generate_request`. A request with fewer candidates than results is fatal. -/
def generateRequest (req : DisaggRequest) : Option Request :=
  if h : widen req.n ≤ widen req.bestOf then
    some {
      requestId := req.reqId
      xRequestId := req.xRequestId
      xRequestTime := req.xRequestTime
      serviceRequestId := req.serviceReqId
      sourceXserviceAddr := req.sourceXserviceAddr
      state := {
        samplingParam := decodeSamplingParam req
        schedulerParam := decodeSchedulerParam req
        stoppingChecker := decodeStoppingChecker req
        prompt := req.prompt
        promptTokens := req.promptTokens
        stream := req.stream
        seqCapacity := widen req.seqCapacity
        n := widen req.n
        bestOf := widen req.bestOf
        echo := req.echo
        skipSpecialTokens := req.skipSpecialTokens
        logprobs := req.logprobs
        n_le_bestOf := h } }
  else none

/-- Two checkers stop at the same tokens. -/
structure StoppingChecker.Agrees (checker checker' : StoppingChecker) : Prop where
  maxGeneratedTokens : checker'.maxGeneratedTokens = checker.maxGeneratedTokens
  maxContextLen : checker'.maxContextLen = checker.maxContextLen
  eosToken : checker'.eosToken = checker.eosToken
  ignoreEos : checker'.ignoreEos = checker.ignoreEos
  stopTokens : ∀ token, token ∈ checker'.stopTokens ↔ token ∈ checker.stopTokens
  stopSequences : checker'.stopSequences = checker.stopSequences

/-- Two states agree on what sampling, stopping, scheduling and the output read. -/
structure RequestState.Agrees (state state' : RequestState) : Prop where
  samplingParam : state'.samplingParam = state.samplingParam
  schedulerParam : state'.schedulerParam = state.schedulerParam
  stoppingChecker : state.stoppingChecker.Agrees state'.stoppingChecker
  prompt : state'.prompt = state.prompt
  promptTokens : state'.promptTokens = state.promptTokens
  stream : state'.stream = state.stream
  seqCapacity : state'.seqCapacity = state.seqCapacity
  n : state'.n = state.n
  bestOf : state'.bestOf = state.bestOf
  echo : state'.echo = state.echo
  skipSpecialTokens : state'.skipSpecialTokens = state.skipSpecialTokens
  logprobs : state'.logprobs = state.logprobs

/-- The decode instance generates with the request of the prefill instance. -/
def Request.Arrives (request : Request) : Prop :=
  ∃ request', generateRequest (encode request) = some request' ∧
    request.state.Agrees request'.state

/-- A `size_t` that an `int32_t` can carry. -/
def Carried (x : UInt64) : Prop := x.toNat < 2 ^ 31 ∨ 2 ^ 64 - 2 ^ 31 ≤ x.toNat

instance (x : UInt64) : Decidable (Carried x) := inferInstanceAs (Decidable (_ ∨ _))

/-- The scheduling parameters of a message in which none of them is set. -/
def unsetSchedulerParam : SchedulerParam where
  offline := false
  ttltSloMs := 0
  ttftSloMs := 0
  tpotSloMs := 0
  tpotPriorityWeight := 0
  ttftPriorityWeight := 0
  ttltPriorityWeight := 0
  priorityWeight := 0
  priority := .default

/-- A request that loses nothing: it uses no field that the message does not carry. -/
structure RequestState.Portable (state : RequestState) : Prop where
  doSample : state.samplingParam.doSample = false
  beamWidth : state.samplingParam.beamWidth = 0
  schedulerParam : state.schedulerParam = unsetSchedulerParam
  logprobs : state.logprobs = state.samplingParam.logprobs
  maxGeneratedTokens : Carried state.stoppingChecker.maxGeneratedTokens
  maxContextLen : Carried state.stoppingChecker.maxContextLen
  seqCapacity : Carried state.seqCapacity
  n : Carried state.n
  bestOf : Carried state.bestOf

theorem widen_narrow_iff (x : UInt64) : widen (narrow x) = x ↔ Carried x := by
  have hx := x.toNat_lt
  have hsize : Int32.size = 2 ^ 32 := rfl
  rw [← UInt64.toNat_inj, widen, narrow, Int32.toInt_ofInt, UInt64.ofInt, UInt64.toNat_ofNat',
    Carried, Int.bmod, hsize]
  split <;> omega

theorem mem_foldl_insertStopToken {tokens stopTokens : List Int32} {token : Int32} :
    token ∈ tokens.foldl insertStopToken stopTokens ↔ token ∈ stopTokens ∨ token ∈ tokens := by
  induction tokens generalizing stopTokens with
  | nil => simp
  | cons first tokens ih =>
      have hinsert : token ∈ insertStopToken stopTokens first ↔
          token ∈ stopTokens ∨ token = first := by
        rw [insertStopToken]
        split
        · rename_i hmem
          constructor
          · exact Or.inl
          · rintro (h | rfl)
            · exact h
            · exact hmem
        · rw [List.mem_append, List.mem_singleton]
      rw [List.foldl_cons, ih, hinsert, List.mem_cons, or_assoc]

theorem decodeSamplingParam_encode {request : Request}
    (hdoSample : request.state.samplingParam.doSample = false)
    (hbeamWidth : request.state.samplingParam.beamWidth = 0) :
    decodeSamplingParam (encode request) = request.state.samplingParam := by
  rw [decodeSamplingParam, encode, ← hdoSample, ← hbeamWidth]

/-- A request arrives as it is if and only if it uses nothing that the message lacks. -/
theorem arrives_iff_portable (request : Request) :
    request.Arrives ↔ request.state.Portable := by
  constructor
  · rintro ⟨request', hrequest, hagrees⟩
    rw [generateRequest] at hrequest
    split at hrequest
    · obtain rfl := Option.some.inj hrequest
      have hsampling := hagrees.samplingParam
      have hstopping := hagrees.stoppingChecker
      exact {
        doSample := (congrArg RequestSamplingParam.doSample hsampling).symm
        beamWidth := (congrArg RequestSamplingParam.beamWidth hsampling).symm
        schedulerParam := hagrees.schedulerParam.symm
        logprobs := hagrees.logprobs.symm
        maxGeneratedTokens := (widen_narrow_iff _).1 hstopping.maxGeneratedTokens
        maxContextLen := (widen_narrow_iff _).1 hstopping.maxContextLen
        seqCapacity := (widen_narrow_iff _).1 hagrees.seqCapacity
        n := (widen_narrow_iff _).1 hagrees.n
        bestOf := (widen_narrow_iff _).1 hagrees.bestOf }
    · cases hrequest
  · intro h
    have hn := (widen_narrow_iff _).2 h.n
    have hbestOf := (widen_narrow_iff _).2 h.bestOf
    have hle : widen (encode request).n ≤ widen (encode request).bestOf := by
      change widen (narrow _) ≤ widen (narrow _)
      rw [hn, hbestOf]
      exact request.state.n_le_bestOf
    rw [Request.Arrives, generateRequest, dif_pos hle]
    refine ⟨_, rfl, ?_⟩
    exact {
      samplingParam := decodeSamplingParam_encode h.doSample h.beamWidth
      schedulerParam := h.schedulerParam.symm
      stoppingChecker := {
        maxGeneratedTokens := (widen_narrow_iff _).2 h.maxGeneratedTokens
        maxContextLen := (widen_narrow_iff _).2 h.maxContextLen
        eosToken := rfl
        ignoreEos := rfl
        stopTokens := fun token => mem_foldl_insertStopToken.trans (by simp [encode])
        stopSequences := rfl }
      prompt := rfl
      promptTokens := rfl
      stream := rfl
      seqCapacity := (widen_narrow_iff _).2 h.seqCapacity
      n := hn
      bestOf := hbestOf
      echo := rfl
      skipSpecialTokens := rfl
      logprobs := h.logprobs.symm }

/-- A sampled request with the scheduling parameters that a client gets when it sets none. -/
def sampledRequest : Request where
  state := {
    samplingParam := { doSample := true, temperature := .one }
    seqCapacity := 4096
    n := 1
    bestOf := 1
    logprobs := false
    n_le_bestOf := by decide }

/-- On the decode instance the request is not sampled any more, its priority is not the one
it had, and its deadlines have passed. -/
theorem sampledRequest_not_arrives :
    ¬ sampledRequest.Arrives ∧
      (generateRequest (encode sampledRequest)).map (·.state.samplingParam.doSample) =
        some false ∧
      (generateRequest (encode sampledRequest)).map (·.state.schedulerParam) =
        some unsetSchedulerParam ∧
      unsetSchedulerParam ≠ sampledRequest.state.schedulerParam := by
  refine ⟨?_, by decide, by decide, by decide⟩
  rintro ⟨request', hrequest, hagrees⟩
  have hdoSample : (generateRequest (encode sampledRequest)).map
      (·.state.samplingParam.doSample) = some false := by decide
  rw [hrequest, Option.map_some, hagrees.samplingParam] at hdoSample
  cases hdoSample

end Xllm.DisaggPD
