import Mathlib.Data.List.Sort
import Xllm.Scheduler.World

/-!
# A serving process without prefix cache

Every request has one sequence, requests with an odd number are offline, and the cache
manager has a number of free blocks. Blocks are granted while there are enough of them.
Waiting requests are ordered by their number, that is first come, first served.
-/

namespace Xllm

/-- A sequence with its tokens in the cache and its blocks. -/
structure PlainSequence where
  promptTokens : Nat := 0
  numTokens : Nat := 0
  kvTokens : Nat := 0
  blocks : Nat := 0
  finished : Bool := false
  cancelled : Bool := false
  preempted : Bool := false
  deriving DecidableEq

/-- The sequences by their number, and the blocks that nobody holds. -/
structure PlainCache where
  blockSize : Nat
  freeBlocks : Nat
  cells : List PlainSequence
  deriving DecidableEq

namespace PlainCache

variable (w : PlainCache)

/-- A sequence that does not exist is empty. -/
def cell (sequence : SequenceId) : PlainSequence := w.cells.getD sequence {}

def setCell (sequence : SequenceId) (cell : PlainSequence) : PlainCache :=
  { w with cells := w.cells.set sequence cell }

theorem cell_setCell (sequence other : SequenceId) (cell : PlainSequence) :
    (w.setCell sequence cell).cell other =
      if sequence = other ∧ sequence < w.cells.length then cell else w.cell other := by
  simp only [PlainCache.cell, setCell, List.getD_eq_getElem?_getD, List.getElem?_set]
  split_ifs with same inside both both
  · rfl
  · exact absurd ⟨same, inside⟩ both
  · exact absurd both.2 inside
  · subst same
    rw [List.getElem?_eq_none (Nat.le_of_not_lt inside)]
  · exact absurd ‹_ ∧ _›.1 same
  · rfl

def stage (sequence : SequenceId) : SequenceStage :=
  if (w.cell sequence).kvTokens < (w.cell sequence).promptTokens then
    if 0 < (w.cell sequence).kvTokens then .chunkedPrefill else .prefill
  else .decode

def numAdditionalBlocks (sequence : SequenceId) (numTokens : Nat) : Nat :=
  (numTokens + w.blockSize - 1) / w.blockSize - (w.cell sequence).blocks

def allocate (sequence : SequenceId) (numTokens : Nat) : Bool × PlainCache :=
  let additional := w.numAdditionalBlocks sequence numTokens
  if additional ≤ w.freeBlocks then
    (true, { w.setCell sequence { w.cell sequence with
        blocks := (w.cell sequence).blocks + additional } with
      freeBlocks := w.freeBlocks - additional })
  else (false, w)

def deallocate (sequence : SequenceId) : PlainCache :=
  { w.setCell sequence { w.cell sequence with blocks := 0, kvTokens := 0 } with
    freeBlocks := w.freeBlocks + (w.cell sequence).blocks }

instance : ServingWorld PlainCache where
  sequences _ request := [request]
  requestFinished w request := (w.cell request).finished
  requestCancelled w request := (w.cell request).cancelled
  requestPreempted w request := (w.cell request).preempted
  offline request := request % 2 == 1
  checkBeamSearch _ := false
  sequenceFinished w sequence := (w.cell sequence).finished
  numTokens w sequence := (w.cell sequence).numTokens
  kvCacheTokensNum w sequence := (w.cell sequence).kvTokens
  hostKvCacheTokensNum _ _ := 0
  stage := stage
  numKvBlocks w sequence := (w.cell sequence).blocks
  sharedKvBlocksNum _ _ := 0
  numUnsharedCached _ _ := 0
  needsBeamSwap _ _ := false
  currentMaxTokensCapacity w sequence := (w.cell sequence).blocks * w.blockSize
  blockSize := blockSize
  numUsedBlocks w := (w.cells.map PlainSequence.blocks).sum
  numFreeBlocks w _ := w.freeBlocks
  kvCacheUtilization w := (w.cells.map PlainSequence.blocks).sum /
    ((w.cells.map PlainSequence.blocks).sum + w.freeBlocks)
  predictStepTime _ _ := 0
  predictStepTimeOf _ _ _ := 0
  constantOverhead _ := 0
  profileTokenBudget _ := 0
  order _ queue := queue.insertionSort (· ≤ ·)
  order_perm _ queue := List.perm_insertionSort _ queue
  insertRunning _ queue request := request :: queue
  insertRunning_perm _ _ _ := List.Perm.refl _
  allocate w sequence numTokens := .ok (w.allocate sequence numTokens)
  deallocate w sequence := .ok (w.deallocate sequence)
  allocateShared w _ := .ok w
  cache w _ := .ok w
  ifCacheBlockForPrefill w _ := (false, w)
  setPreempted w request := w.setCell request { w.cell request with preempted := true }
  expandSequences w _ _ := (false, w)
  updatePrefetchResult w _ := (true, w)
  updateConnectionStatus w _ := w

end PlainCache

end Xllm
