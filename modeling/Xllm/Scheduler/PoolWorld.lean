import Mathlib.Data.Rat.Defs
import Mathlib.Logic.Function.Basic
import Xllm.Block.Beamless
import Xllm.Block.TokenCounts
import Xllm.Scheduler.SequenceGroups

/-!
# A serving process with block managers

`PoolWorld` puts requests, their sequences and the block managers of the ranks under a
scheduler: what it reads of a sequence is read from the sequence, and the calls of the cache
manager are those of `BlockManagerPool`, or of `HierarchyBlockManagerPool` when there are
host blocks. The order of requests, their cancellation and the latencies are as in the
process that it is built on.
-/

namespace Xllm

open Contract

/-- Sequences, ranks and the queues of the pool with host blocks. A sequence gets its rank at
the first call that is about it. -/
structure PoolWorld (W : Type) extends GroupWorld W where
  dpSize : Nat := 1
  ranks : Nat → DpRank
  dpRank : SequenceId → Option Nat := fun _ => none
  sequence : SequenceId → Sequence
  isCacheBlockForPrefill : SequenceId → Bool := fun _ => false
  hierarchy : Bool := false
  loadBlocks : Nat → List (Block × Block) := fun _ => []
  offloadBlocks : Nat → List OffloadBlockPair := fun _ => []

namespace PoolWorld

variable {W : Type} (w : PoolWorld W)

def freeBlocks (rank : Nat) : Nat := (w.ranks rank).blockManager.heap.numFreeBlocks

/-- `get_manager_with_max_free_blocks`: the first one of those with the most free blocks. -/
def maxFreeRank : Nat :=
  (List.range w.dpSize).foldl (fun best i => if w.freeBlocks best < w.freeBlocks i then i
    else best) 0

def rankOf (q : SequenceId) : Nat := (w.dpRank q).getD 0

/-- `get_dp_rank`. -/
def chooseRank (q : SequenceId) : PoolWorld W :=
  match w.dpRank q with
  | none => { w with dpRank := Function.update w.dpRank q (some w.maxFreeRank) }
  | some _ => w

def view (q : SequenceId) : Serving := ⟨w.ranks (w.rankOf q), w.sequence q⟩

def put (q : SequenceId) (p : Serving) : PoolWorld W :=
  { w with
    ranks := Function.update w.ranks (w.rankOf q) p.rank
    sequence := Function.update w.sequence q p.sequence }

def serve (q : SequenceId) (f : Serving → Except Check Serving) : Except Check (PoolWorld W) := do
  let p ← f ((w.chooseRank q).view q)
  .ok ((w.chooseRank q).put q p)

def queueLoads (rank : Nat) (pairs : List (Block × Block)) : PoolWorld W :=
  { w with loadBlocks := Function.update w.loadBlocks rank (w.loadBlocks rank ++ pairs) }

def queueOffloads (rank : Nat) (pairs : List OffloadBlockPair) : PoolWorld W :=
  { w with offloadBlocks := Function.update w.offloadBlocks rank (w.offloadBlocks rank ++ pairs) }

section

variable [XXH3]

def allocate (q : SequenceId) (numTokens : Nat) : Except Check (Bool × PoolWorld W) :=
  let w := w.chooseRank q
  if w.hierarchy then do
    let (ok, loads, p) ← (w.view q).allocateHierarchy numTokens
    .ok (ok, (w.put q p).queueLoads (w.rankOf q) loads)
  else do
    let (ok, p) ← (w.view q).allocate numTokens
    .ok (ok, w.put q p)

def deallocate (q : SequenceId) : Except Check (PoolWorld W) :=
  if w.hierarchy then do
    let w := w.chooseRank q
    let (pairs, p) ← (w.view q).deallocateHierarchy
    .ok ((w.put q p).queueOffloads (w.rankOf q) pairs)
  else w.serve q Serving.deallocate

def allocateShared (q : SequenceId) : Except Check (PoolWorld W) :=
  w.serve q (if w.hierarchy then Serving.allocateSharedHierarchy else Serving.allocateShared)

end

def expandSequences [ServingWorld W] (request : RequestId) (sharePrefix : Bool) :
    Bool × PoolWorld W :=
  let (expanded, group) := (w.group request).expandSequences
    (ServingWorld.checkBeamSearch (W := W) request)
    (w.sequence (Nat.pair request 0)).kvState.kvCacheTokensNum sharePrefix
  (expanded, { w with toGroupWorld := w.setGroup request group })

def ifCacheBlock (q : SequenceId) : Bool × PoolWorld W :=
  let cached := w.isCacheBlockForPrefill q
  let ifCache := !cached && decide ((w.sequence q).numPromptTokens < (w.sequence q).numTokens)
  let flags := Function.update w.isCacheBlockForPrefill q (cached || ifCache)
  (ifCache, { w with isCacheBlockForPrefill := flags })

/-- The shared blocks of a sequence whose `ref_count` is at most two. -/
def numUnsharedCached (q : SequenceId) : Nat :=
  (w.sequence q).kvState.existedSharedBlocks.countP fun b =>
    (w.ranks (w.rankOf q)).blockManager.heap.refCount b ≤ 2

def kvCacheUtilization (rank : Nat) : Rat :=
  let m := (w.ranks rank).blockManager
  let total := m.heap.freeBlocks.length - 1
  if m.options.enablePrefixCache then (m.numUsedBlocks : Rat) / (total : Rat)
  else 1 - (m.heap.numFreeBlocks : Rat) / (total : Rat)

variable [ServingWorld W]

instance [XXH3] : ServingWorld (PoolWorld W) where
  sequences w := w.sequences
  /- `SequencesGroup::finished` -/
  requestFinished w request := (w.group request).bestOf ≤ (w.group request).numSequences &&
    (w.sequences request).all fun q => (w.sequence q).finished
  requestCancelled w := ServingWorld.requestCancelled w.base
  requestPreempted w request := (w.group request).preempted
  offline := ServingWorld.offline (W := W)
  checkBeamSearch := ServingWorld.checkBeamSearch (W := W)
  sequenceFinished w q := (w.sequence q).finished
  numTokens w q := (w.sequence q).numTokens
  kvCacheTokensNum w q := (w.sequence q).kvState.kvCacheTokensNum
  hostKvCacheTokensNum w q := (w.sequence q).hostKvState.kvCacheTokensNum
  stage w q := (w.sequence q).stage
  numKvBlocks w q := (w.sequence q).kvState.numKvBlocks
  sharedKvBlocksNum w q := (w.sequence q).kvState.numOwnedSharedBlocks
  numUnsharedCached := numUnsharedCached
  needsBeamSwap w q := (w.sequence q).checkBeamSearch &&
    !(w.sequence q).kvState.srcBlocks.isEmpty && (w.sequence q).kvState.needSwap
  currentMaxTokensCapacity w q := (w.sequence q).kvState.currentMaxTokensCapacity
  blockSize w := (w.ranks 0).blockManager.options.blockSize
  numUsedBlocks w := ((List.range w.dpSize).map fun rank =>
    (w.ranks rank).blockManager.usedBlocks).sum
  numFreeBlocks w q :=
    match w.dpRank q with
    | some rank => w.freeBlocks rank
    | none => w.freeBlocks w.maxFreeRank
  kvCacheUtilization w := w.kvCacheUtilization w.maxFreeRank
  predictStepTime w := ServingWorld.predictStepTime w.base
  predictStepTimeOf w := ServingWorld.predictStepTimeOf w.base
  constantOverhead w := ServingWorld.constantOverhead w.base
  profileTokenBudget w := ServingWorld.profileTokenBudget w.base
  order w := ServingWorld.order w.base
  order_perm w := ServingWorld.order_perm w.base
  insertRunning w := ServingWorld.insertRunning w.base
  insertRunning_perm w := ServingWorld.insertRunning_perm w.base
  allocate w q numTokens := w.allocate q numTokens
  deallocate w q := w.deallocate q
  allocateShared w q := w.allocateShared q
  cache w q := w.serve q Serving.cache
  ifCacheBlockForPrefill := ifCacheBlock
  setPreempted w request :=
    { w with toGroupWorld := w.setGroup request { w.group request with preempted := true } }
  expandSequences w request sharePrefix := w.expandSequences request sharePrefix
  /- without a store for the cache there is nothing to wait for -/
  updatePrefetchResult w _ := (true, w)
  updateConnectionStatus w request :=
    { w with base := ServingWorld.updateConnectionStatus w.base request }

end PoolWorld

end Xllm
