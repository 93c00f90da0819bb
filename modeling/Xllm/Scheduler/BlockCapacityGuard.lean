import Xllm.Util.HashUtil
import Mathlib.Data.Finset.Card
import Mathlib.Data.Finset.Union
import Mathlib.Data.Int.Basic
import Mathlib.Algebra.BigOperators.Ring.Finset
import Mathlib.Algebra.Order.BigOperators.Group.List
import Mathlib.Tactic.Linarith

/-!
# Zero-eviction admission

`BlockCapacityGuard` decides whether the scheduler may admit candidate sequences
without a later preemption. It simulates rounds in which every sequence takes one
block, until the sequence has the blocks for its remaining tokens; in the round
after that its blocks are released.

The counters are `uint32_t` values. The definitions take the reduction of a counter
as an argument, so that the same simulation can be run over the integers.
-/

namespace Xllm

/-- The reduction of a `uint32_t` value. -/
def wrapUInt32 (n : Int) : Int := n % 2 ^ 32

structure SequenceStatus where
  numBlockNeedToUse : Int
  numReleaseBlock : Int
  deriving DecidableEq

/-- What the guard reads of a sequence; the blocks are given by their ids. -/
structure GuardSequence where
  numTokens : Nat
  numPromptTokens : Nat
  finished : Bool := false
  blocks : List Int := []
  deriving DecidableEq

structure KVCacheView where
  blockSize : Nat
  /-- All blocks, with the padding block. -/
  numBlocks : Nat
  numUsedBlocks : Nat
  refCount : Int → Nat
  sequences : Nat → GuardSequence

/-- The flags of the guard and the effect of `allocate_shared` on the manager. -/
structure BlockCapacityGuard where
  enablePrefixCache : Bool
  maxDecodeTokenPerSequence : Int
  allocateShared : KVCacheView → Nat → KVCacheView

section Simulation

variable (wrap : Int → Int)

def ceilingDiv (left right : Int) : Int := wrap (left + right - 1) / right

def updateRequestStatusEachStep (numRemainingBlock : Int) :
    List SequenceStatus → Int × List SequenceStatus
  | [] => (numRemainingBlock, [])
  | st :: sts =>
      if st.numBlockNeedToUse = 0 then
        updateRequestStatusEachStep (wrap (numRemainingBlock + st.numReleaseBlock)) sts
      else
        let (rest, sts) := updateRequestStatusEachStep numRemainingBlock sts
        (rest, ⟨wrap (st.numBlockNeedToUse - 1), wrap (st.numReleaseBlock + 1)⟩ :: sts)

def getNumReservedFullBlocks (sts : List SequenceStatus) : Int :=
  sts.foldl (fun reserved st => wrap (reserved + st.numBlockNeedToUse)) 0

def getMaxIterNum (sts : List SequenceStatus) : Int :=
  sts.foldl (fun maxIterNum st => max maxIterNum st.numBlockNeedToUse) 0

def simulateRounds : Nat → Int → List SequenceStatus → Bool
  | 0, _, _ => true
  | rounds + 1, numRemainingBlock, sts =>
      if numRemainingBlock < sts.length then false
      else
        let (numRemainingBlock, sts) :=
          updateRequestStatusEachStep wrap (wrap (numRemainingBlock - sts.length)) sts
        if getNumReservedFullBlocks wrap sts < numRemainingBlock then true
        else simulateRounds rounds numRemainingBlock sts

def BlockCapacityGuard.remainingDecodeTokenNum (g : BlockCapacityGuard) (seq : GuardSequence) :
    Int :=
  g.maxDecodeTokenPerSequence - ((seq.numTokens : Int) - seq.numPromptTokens)

def BlockCapacityGuard.numBlockNeedToUseFor (g : BlockCapacityGuard) (kv : KVCacheView)
    (seq : GuardSequence) : Int :=
  if g.remainingDecodeTokenNum seq < 0 then 1
  else ceilingDiv wrap (g.remainingDecodeTokenNum seq) kv.blockSize

def KVCacheView.releasedBlocks (kv : KVCacheView) (seq : GuardSequence) : List Int :=
  seq.blocks.dropWhile fun id => 2 < kv.refCount id

def numReleaseBlockFor (kv : KVCacheView) (seq : GuardSequence) : Int :=
  let numReleaseBlock :=
    wrap (ceilingDiv wrap seq.numTokens kv.blockSize - seq.blocks.length)
  wrap (numReleaseBlock + (kv.releasedBlocks seq).length)

def getRunningSequences (kv : KVCacheView) (runningQueue : List (List Nat)) : List Nat :=
  runningQueue.reverse.flatten.filter fun i => (kv.sequences i).finished = false

namespace BlockCapacityGuard

variable (g : BlockCapacityGuard) (kv : KVCacheView)

def getAllSequenceStatus (all : List Nat) : List SequenceStatus :=
  all.map fun i => ⟨g.numBlockNeedToUseFor wrap kv (kv.sequences i),
    numReleaseBlockFor wrap kv (kv.sequences i)⟩

def computeReservedBlockNum (candidates : List Nat) : Int :=
  candidates.foldl (fun num i =>
    wrap (num + ceilingDiv wrap (kv.sequences i).numTokens kv.blockSize)) 0

def getNeededBlockNumForPrefill (candidates : List Nat) : Except Check Int :=
  let reserved := computeReservedBlockNum wrap kv candidates
  if g.enablePrefixCache then .ok reserved
  else
    let total := candidates.foldl (fun num i => wrap (num + (kv.sequences i).blocks.length)) 0
    if total ≤ reserved then .ok (wrap (reserved - total)) else .error .capacityGuard

def prefixCacheForCandidateSequences (candidates : List Nat) : KVCacheView :=
  if g.enablePrefixCache then candidates.foldl g.allocateShared kv else kv

def numBlocksInUseless : Int := wrap ((kv.numBlocks : Int) - kv.numUsedBlocks)

/-- `simulate_is_satisfied_for_candidate_sequences`, after the candidates have taken
their cached prefixes. -/
def simulateIsSatisfied (candidates all : List Nat) : Except Check Bool := do
  let needed ← g.getNeededBlockNumForPrefill wrap kv candidates
  let remaining := wrap (numBlocksInUseless wrap kv - needed)
  if 0 < remaining ∧ all ≠ [] then
    let sts := g.getAllSequenceStatus wrap kv all
    .ok (simulateRounds wrap (getMaxIterNum sts).toNat remaining sts)
  else .error .capacityGuard

def ifAcceptCandidateSequences (candidates : List Nat) (runningQueue : List (List Nat))
    (runningSequences : List Nat) : Except Check (Bool × KVCacheView) := do
  let queue := getRunningSequences kv runningQueue
  let kv := g.prefixCacheForCandidateSequences kv candidates
  let accepted ← g.simulateIsSatisfied wrap kv candidates (runningSequences ++ candidates ++ queue)
  .ok (accepted, kv)

end BlockCapacityGuard

end Simulation

end Xllm
