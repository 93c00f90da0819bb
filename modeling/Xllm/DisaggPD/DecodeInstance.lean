import Xllm.Block.Beamless
import Xllm.DisaggPD.Dispatch

/-!
# The decode instance

A decode instance reserves the blocks of a request when a prefill instance announces it,
keeps the request in `received_request_map_`, and hands it to its scheduler when the first
token arrives. When a prefill instance is unlinked, the requests that it has announced are
forgotten. Messages may be lost, repeated and reordered: a run is any list of handler calls.

A sequence is named by its rank and its place there. A sequence that has been destroyed
leaves an empty one in its place. Beam widths are not sent, so no sequence here has beams.
-/

namespace Xllm.DisaggPD

open Contract Ledger
open SharedMemory (Text)

structure SequenceRef where
  dpRank : Nat
  index : Nat
  deriving DecidableEq

structure DecodeOptions where
  memoryUsageThreshold : Rat := 19 / 20
  requestQueueSize : Nat := 100000
  enableScheduleOverlap : Bool := false

/-- `DisaggPDScheduler` and its block manager pool on a decode instance. `scheduled` are the
sequences of the requests that the scheduler has read from `request_queue_` and not
finished. -/
structure DecodeInstance where
  options : DecodeOptions
  ranks : List PoolState
  receivedRequestMap : Text → Option SequenceRef := fun _ => none
  requestToInstanceMap : Text → Option Text := fun _ => none
  instanceToReceivedRequestsMap : Text → Option (List Text) := fun _ => none
  requestQueue : List SequenceRef := []
  scheduled : List SequenceRef := []

structure DisaggResponse where
  reqId : Text
  statusCode : Nat
  dpRank : Nat := 0
  blocksIds : List Int := []

/-- The message `DisaggGenerations`, as far as it decides what happens to the request. -/
structure DisaggGenerations where
  reqId : Text
  tokens : List Token

def getManagerWithMaxFreeBlocks (ranks : List PoolState) : Nat :=
  (ranks.zipIdx.foldl (fun (best : Nat × Nat) entry =>
    let currentFree := entry.1.rank.blockManager.heap.numFreeBlocks
    if best.1 < currentFree then (currentFree, entry.2) else best)
    ((ranks.head?.map (·.rank.blockManager.heap.numFreeBlocks)).getD 0, 0)).2

/-- `kv_cache_utilization() < threshold`. A quotient by zero is below nothing. -/
def utilizationBelow (m : BlockManagerImpl) (threshold : Rat) : Bool :=
  let numTotalBlocks := m.heap.freeBlocks.length - 1
  if numTotalBlocks = 0 then false
  else if m.options.enablePrefixCache then
    decide ((m.numUsedBlocks : Rat) / numTotalBlocks < threshold)
  else decide (1 - (m.heap.numFreeBlocks : Rat) / numTotalBlocks < threshold)

namespace DecodeInstance

def create (options : DecodeOptions) (ranks : List PoolState) : DecodeInstance where
  options := options
  ranks := ranks

variable (d : DecodeInstance)

def setRank (dpRank : Nat) (pool : PoolState) : DecodeInstance :=
  { d with ranks := d.ranks.set dpRank pool }

/-- A call for a sequence of some rank. -/
def onRank (dpRank : Nat) (f : PoolState → Except Check PoolState) :
    Except Check DecodeInstance :=
  match d.ranks[dpRank]? with
  | none => .ok d
  | some pool => do
      let pool ← f pool
      .ok (d.setRank dpRank pool)

def release (ref : SequenceRef) : Except Check DecodeInstance :=
  d.onRank ref.dpRank fun pool => pool.destroy ref.index

def arrive (request : Request) : Except Check (SequenceRef × PoolState) :=
  let dpRank := getManagerWithMaxFreeBlocks d.ranks
  match d.ranks[dpRank]? with
  | none => .error .outOfBounds
  | some pool => do
      let sequence ← Sequence.create request.state.promptTokens request.state.seqCapacity.toNat
        request.state.samplingParam.beamWidth.toNatClampNeg
      .ok (⟨dpRank, pool.sequences.length⟩,
        { pool with sequences := pool.sequences ++ [sequence] })

section

variable [XXH3]

def tryAllocate (pool : PoolState) (index : Nat) : Except Check (Bool × PoolState) :=
  if utilizationBelow pool.rank.blockManager d.options.memoryUsageThreshold then
    pool.tryAllocate index
  else .ok (false, pool)

/-- The maps after `decode_schedule` has taken a new request. -/
def register (reqId prefillInstanceName : Text) (ref : SequenceRef) : DecodeInstance :=
  let received := (d.instanceToReceivedRequestsMap prefillInstanceName).getD []
  { d with
    receivedRequestMap := Function.update d.receivedRequestMap reqId (some ref)
    instanceToReceivedRequestsMap :=
      Function.update d.instanceToReceivedRequestsMap prefillInstanceName
        (some (if reqId ∈ received then received else received ++ [reqId]))
    requestToInstanceMap := Function.update d.requestToInstanceMap reqId
      (some prefillInstanceName) }

def decodeSchedule (reqId prefillInstanceName : Text) (ref : SequenceRef) :
    Except Check (Bool × DecodeInstance) :=
  if (d.receivedRequestMap reqId).isSome then do
    let d ← d.onRank ref.dpRank fun pool => pool.step (.deallocate ref.index)
    let d ← d.release ref
    .ok (false, d)
  else .ok (true, d.register reqId prefillInstanceName ref)

def remoteBlocksIds (ref : SequenceRef) : List Int :=
  match d.ranks[ref.dpRank]? >>= fun pool => pool.sequences[ref.index]? with
  | none => []
  | some sequence =>
      (sequence.kvState.blocks.drop sequence.kvState.numOwnedSharedBlocks).map Block.id

def decodeRecvNewRequest (prefillName : Text) (req : DisaggRequest) :
    Except Check (DisaggResponse × DecodeInstance) :=
  match generateRequest req with
  | none => .error .newSequence
  | some request => do
      let (ref, pool) ← d.arrive request
      let (allocated, pool) ← d.tryAllocate pool ref.index
      let d := d.setRank ref.dpRank pool
      if !allocated then
        let d ← d.release ref
        .ok (⟨req.reqId, 404, 0, []⟩, d)
      else
        let (success, d) ← d.decodeSchedule request.requestId prefillName ref
        if success then .ok (⟨req.reqId, 200, ref.dpRank, d.remoteBlocksIds ref⟩, d)
        else .ok (⟨req.reqId, 500, 0, []⟩, d)

/-- The maps after a received request has been taken out for its first token. -/
def unregister (reqId : Text) : DecodeInstance :=
  let d := { d with receivedRequestMap := Function.update d.receivedRequestMap reqId none }
  match d.requestToInstanceMap reqId with
  | none => d
  | some name =>
      { d with
        instanceToReceivedRequestsMap := Function.update d.instanceToReceivedRequestsMap name
          (some (((d.instanceToReceivedRequestsMap name).getD []).filter (· ≠ reqId)))
        requestToInstanceMap := Function.update d.requestToInstanceMap reqId none }

/-- The first token is appended. Under overlap a placeholder is appended and then replaced
at `cur_generated_token_idx_`, the end of the prompt. -/
def appendFirstToken (ref : SequenceRef) (token : Token) : Except Check DecodeInstance :=
  d.onRank ref.dpRank fun pool =>
    if d.options.enableScheduleOverlap then do
      let pool ← pool.step (.appendToken ref.index (-1))
      pool.step (.updateToken ref.index
        ((pool.sequences[ref.index]?.map Sequence.numPromptTokens).getD 0) token)
    else pool.step (.appendToken ref.index token)

/-- `request_queue_.write`, whose result is not looked at. -/
def writeRequestQueue (ref : SequenceRef) : Except Check DecodeInstance :=
  if d.requestQueue.length < d.options.requestQueueSize then
    .ok { d with requestQueue := d.requestQueue ++ [ref] }
  else d.release ref

def decodeRecvFirstGeneration (gen : DisaggGenerations) : Except Check (Bool × DecodeInstance) :=
  match gen.tokens with
  | [] => .ok (false, d)
  | token :: _ =>
      match d.receivedRequestMap gen.reqId with
      | none => .ok (false, d)
      | some ref => do
          let d ← (d.unregister gen.reqId).appendFirstToken ref token
          let d ← d.writeRequestQueue ref
          .ok (true, d)

/-- One round of the loop in `unlink_instance`: the last owner of the request gives it up. -/
def dropReceived (reqId : Text) : Except Check DecodeInstance :=
  let erased := { d with
    receivedRequestMap := Function.update d.receivedRequestMap reqId none
    requestToInstanceMap := Function.update d.requestToInstanceMap reqId none }
  match d.receivedRequestMap reqId with
  | none => .ok erased
  | some ref => erased.release ref

/-- `unlink_instance`, as far as it clears the requests from the instance. -/
def unlinkInstance (instanceName : Text) : Except Check DecodeInstance :=
  match d.instanceToReceivedRequestsMap instanceName with
  | none => .ok d
  | some reqIds => do
      let d ← reqIds.foldlM dropReceived d
      .ok { d with instanceToReceivedRequestsMap :=
        Function.update d.instanceToReceivedRequestsMap instanceName none }

def readRequestQueue : DecodeInstance :=
  match d.requestQueue with
  | [] => d
  | ref :: refs => { d with requestQueue := refs, scheduled := d.scheduled ++ [ref] }

/-- `expand_sequences`: one more sequence with the prompt of the request. -/
def expand (ref : SequenceRef) (dpRank : Nat) : Except Check DecodeInstance :=
  match d.ranks[ref.dpRank]? >>= fun pool => pool.sequences[ref.index]?, d.ranks[dpRank]? with
  | some first, some pool => do
      let sequence ← Sequence.create (first.tokenBuffer.take first.numPromptTokens)
        first.tokenBuffer.length first.beamWidth
      .ok { d.setRank dpRank { pool with sequences := pool.sequences ++ [sequence] } with
        scheduled := d.scheduled ++ [⟨dpRank, pool.sequences.length⟩] }
  | _, _ => .ok d

/-- A finished or cancelled request is deallocated and given up. -/
def finish (ref : SequenceRef) : Except Check DecodeInstance := do
  let d ← d.onRank ref.dpRank fun pool => pool.step (.deallocate ref.index)
  let d ← d.release ref
  .ok { d with scheduled := d.scheduled.filter (· ≠ ref) }

end

end DecodeInstance

inductive DecodeOp where
  | addNewRequest (prefillName : Text) (req : DisaggRequest)
  | firstGeneration (gen : DisaggGenerations)
  | unlinkInstance (instanceName : Text)
  | readRequestQueue
  | expand (ref : SequenceRef) (dpRank : Nat)
  | schedule (ref : SequenceRef) (op : SequenceOp)
  | finish (ref : SequenceRef)

namespace DecodeInstance

def step [XXH3] (d : DecodeInstance) : DecodeOp → Except Check DecodeInstance
  | .addNewRequest prefillName req => do
      let (_, d) ← d.decodeRecvNewRequest prefillName req
      .ok d
  | .firstGeneration gen => do
      let (_, d) ← d.decodeRecvFirstGeneration gen
      .ok d
  | .unlinkInstance instanceName => d.unlinkInstance instanceName
  | .readRequestQueue => .ok d.readRequestQueue
  | .expand ref dpRank => if ref ∈ d.scheduled then d.expand ref dpRank else .ok d
  | .schedule ref op =>
      if ref ∈ d.scheduled then d.onRank ref.dpRank fun pool => pool.step (op.at ref.index)
      else .ok d
  | .finish ref => if ref ∈ d.scheduled then d.finish ref else .ok d

/-- The sequence with the given name. -/
def sequence? (d : DecodeInstance) (ref : SequenceRef) : Option Sequence :=
  d.ranks[ref.dpRank]? >>= fun pool => pool.sequences[ref.index]?

/-- The ids that the instance is known to have announced. -/
def receivedFrom (d : DecodeInstance) (name : Text) : List Text :=
  (d.instanceToReceivedRequestsMap name).getD []

/-- The sequence belongs to a request that is in `received_request_map_`, or that has been
written to `request_queue_` and is not finished. -/
def Holds (d : DecodeInstance) (ref : SequenceRef) : Prop :=
  (∃ reqId, d.receivedRequestMap reqId = some ref) ∨ ref ∈ d.requestQueue ∨ ref ∈ d.scheduled

/-- The decode instance has lost track of nothing. -/
structure Custody (d : DecodeInstance) : Prop where
  same_requests : ∀ reqId,
    (d.receivedRequestMap reqId).isSome ↔ (d.requestToInstanceMap reqId).isSome
  instance_requests : ∀ name reqId,
    reqId ∈ d.receivedFrom name ↔ d.requestToInstanceMap reqId = some name
  holders : ∀ ref seq, d.sequence? ref = some seq → seq.kvState.blocks ≠ [] → d.Holds ref
  used_blocks : ∀ pool ∈ d.ranks, pool.rank.blockManager.usedBlocks =
    (ids (PoolState.deviceHandles pool.sequences)).card
  all_released : (∀ reqId, d.receivedRequestMap reqId = none) → d.requestQueue = [] →
    d.scheduled = [] → ∀ pool ∈ d.ranks, pool.rank.blockManager.usedBlocks = 0

end DecodeInstance

end Xllm.DisaggPD
