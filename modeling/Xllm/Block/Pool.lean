import Xllm.Block.EmbeddingManager
import Xllm.Request.Sequence

/-!
# The block manager pool

`BlockManagerPool` serves sequences from the managers of their data-parallel
rank. Ranks share nothing, so the pool is modelled one rank at a time: `DpRank`
holds the managers of a rank, and a `Serving` is a rank together with the
sequence that a call is about.

The host block manager belongs to `HierarchyBlockManagerPool`. A plain pool never
calls it, but `Sequence::reset` also drops host blocks.
-/

namespace Xllm

open Contract

/-- The managers of one rank. `concurrent` says that the block manager is a
`ConcurrentBlockManagerImpl`, whose `allocate_shared` ignores existing blocks. -/
structure DpRank where
  blockManager : BlockManagerImpl
  embeddingManager : EmbeddingManager
  hostBlockManager : BlockManagerImpl
  concurrent : Bool := false
  swapBlockTransferInfos : List (Int × Int) := []

structure Serving where
  rank : DpRank
  sequence : Sequence

namespace Serving

def blockSize (p : Serving) : Nat := p.rank.blockManager.options.blockSize

def setManager (p : Serving) (m : BlockManagerImpl) : Serving :=
  { p with rank := { p.rank with blockManager := m } }

def setHeap (p : Serving) (heap : BlockHeap) : Serving :=
  p.setManager { p.rank.blockManager with heap := heap }

def setKvState (p : Serving) (kvState : KVCacheState) : Serving :=
  { p with sequence := { p.sequence with kvState := kvState } }

@[simp] theorem setManager_sequence (p : Serving) (m : BlockManagerImpl) :
    (p.setManager m).sequence = p.sequence := rfl

@[simp] theorem setManager_blockManager (p : Serving) (m : BlockManagerImpl) :
    (p.setManager m).rank.blockManager = m := rfl

@[simp] theorem setHeap_sequence (p : Serving) (heap : BlockHeap) :
    (p.setHeap heap).sequence = p.sequence := rfl

@[simp] theorem setKvState_kvState (p : Serving) (kvState : KVCacheState) :
    (p.setKvState kvState).sequence.kvState = kvState := rfl

@[simp] theorem setKvState_rank (p : Serving) (kvState : KVCacheState) :
    (p.setKvState kvState).rank = p.rank := rfl

def allocateEmbeddingId (p : Serving) : Except Check (Bool × Serving) :=
  if p.sequence.hasEmbeddingId then .ok (true, p)
  else do
    let (block, m) ← p.rank.embeddingManager.allocate
    let rank := { p.rank with embeddingManager := m }
    match block with
    | none => .ok (false, { p with rank := rank })
    | some b => .ok (true, ⟨rank, { p.sequence with embeddingBlock := b }⟩)

/-- `deallocate_embedding_id`; the moved-out block dies at its end. -/
def deallocateEmbeddingId (p : Serving) : Except Check Serving := do
  let m ← p.rank.embeddingManager.release p.sequence.embeddingBlock
  .ok ⟨{ p.rank with embeddingManager := m },
    { p.sequence with embeddingBlock := p.sequence.embeddingBlock.movedFrom }⟩

def resetSequence (p : Serving) : Except Check Serving := do
  let (sequence, device, host) ←
    p.sequence.reset p.rank.blockManager.heap p.rank.hostBlockManager.heap
  .ok ⟨{ p.rank with
    blockManager := { p.rank.blockManager with heap := device }
    hostBlockManager := { p.rank.hostBlockManager with heap := host } }, sequence⟩

/-- The statements that `deallocate` and the rollback of `allocate` share: the
manager counts the blocks down, the embedding id is given up, and the sequence
is reset. -/
def drop (p : Serving) (embedding : Bool) : Except Check Serving := do
  let m ← p.rank.blockManager.deallocate p.sequence.kvState.blocks
  let p ← if embedding then (p.setManager m).deallocateEmbeddingId else .ok (p.setManager m)
  p.resetSequence

def processBeamSearch (p : Serving) (needSwap : Bool) : Except Check (Bool × Serving) :=
  if !p.sequence.checkBeamSearch then .ok (true, p)
  else if p.sequence.kvState.srcBlocks = [] then .ok (true, p)
  else if needSwap && p.sequence.kvState.needSwap then do
    let (newBlocks, m) ← p.rank.blockManager.allocate 1
    let p := p.setManager m
    match newBlocks with
    | [] => .ok (false, p)
    | b :: _ => do
        let last := (p.sequence.kvState.srcBlocks.getLast?.map Block.id).getD 0
        let (kvState, heap) ←
          p.sequence.kvState.processBeamSearch (some b) p.rank.blockManager.heap
        let p := (p.setHeap heap).setKvState kvState
        .ok (true, { p with rank := { p.rank with
          swapBlockTransferInfos := p.rank.swapBlockTransferInfos ++ [(last, b.id)] } })
  else do
    let (kvState, heap) ← p.sequence.kvState.processBeamSearch none p.rank.blockManager.heap
    .ok (true, (p.setHeap heap).setKvState kvState)

def existedSharedBlocks (p : Serving) : List Block :=
  if p.rank.concurrent then [] else p.sequence.kvState.existedSharedBlocks

/-- The bound check of `kv_blocks().slice(0, shared_kv_blocks_num())`, which is
reached with the prefix cache only. -/
def checkShared (p : Serving) : Except Check Unit :=
  if p.rank.blockManager.options.enablePrefixCache = true →
      p.sequence.kvState.numOwnedSharedBlocks ≤ p.sequence.kvState.numKvBlocks then .ok ()
  else .error .sliceOutOfRange

section

variable [XXH3]

def allocateShared (p : Serving) : Except Check Serving := do
  if p.rank.blockManager.options.enablePrefixCache then
    p.checkShared
    let (sharedBlocks, m) ←
      p.rank.blockManager.allocateShared p.sequence.tokens p.existedSharedBlocks
    let p := p.setManager m
    let (kvState, heap) ←
      p.sequence.kvState.addSharedKvBlocks sharedBlocks p.sequence.numTokens m.heap
    .ok ((p.setHeap heap).setKvState kvState)
  else .ok p

def cache (p : Serving) : Except Check Serving := do
  let cachedTokens ← p.sequence.cachedTokens
  let (blocks, m) ← p.rank.blockManager.cache cachedTokens p.sequence.kvState.blocks
    p.sequence.kvState.numOwnedSharedBlocks
  .ok ((p.setManager m).setKvState { p.sequence.kvState with blocks := blocks })

def deallocate (p : Serving) : Except Check Serving := do
  let p ← p.cache
  p.drop true

/-- The end of `allocate` when the manager has too few blocks. -/
def rollback (p : Serving) (startedEmpty needsEmbeddingId : Bool) : Except Check Serving :=
  if startedEmpty then p.drop needsEmbeddingId else .ok p

/-- The part of `allocate` after the shared blocks: more blocks for `numTokens`. -/
def allocateMore (p : Serving) (numTokens : Nat) (startedEmpty needsEmbeddingId : Bool) :
    Except Check (Bool × Serving) := do
  let numBlocks := p.sequence.kvState.numKvBlocks
  let numBlocksNeeded := (numTokens + p.blockSize - 1) / p.blockSize
  if numBlocksNeeded ≤ numBlocks then p.processBeamSearch true
  else
    let (_, p) ← p.processBeamSearch false
    let numAdditionalBlocks := (numBlocksNeeded - numBlocks) % 2 ^ 32
    let (blocks, m) ← p.rank.blockManager.allocate numAdditionalBlocks
    let p := p.setManager m
    if blocks.length = numAdditionalBlocks then
      .ok (true, p.setKvState (p.sequence.kvState.addKvBlocks blocks))
    else do
      let p ← p.rollback startedEmpty needsEmbeddingId
      .ok (false, p)

def allocate (p : Serving) (numTokens : Nat) : Except Check (Bool × Serving) := do
  let startedEmpty := decide (p.sequence.kvState.numKvBlocks = 0)
  let needsEmbeddingId := !p.sequence.hasEmbeddingId
  let (ok, p) ← p.allocateEmbeddingId
  if ok then
    let p ← if startedEmpty then p.allocateShared else .ok p
    p.allocateMore numTokens startedEmpty needsEmbeddingId
  else .ok (false, p)

/-- Subtraction of `size_t` values. -/
def subSize (a b : Nat) : Nat := (a + (2 ^ 64 - b % 2 ^ 64)) % 2 ^ 64

/-- The first part of `try_allocate`: `add_kv_blocks` copies the matched vector,
which stays alive until `try_allocate` returns. -/
def tryShared (p : Serving) : Except Check (List Block × Serving) := do
  p.checkShared
  let (sharedBlocks, m) ←
    p.rank.blockManager.allocateShared p.sequence.tokens p.existedSharedBlocks
  let kvState ← p.sequence.kvState.addTryShared sharedBlocks
  .ok (sharedBlocks, (p.setManager
    { m with heap := m.heap.incAll sharedBlocks }).setKvState kvState)

/-- The end of `try_allocate` when the manager has too few blocks. The matched
vector is still alive when `deallocate` looks at the counts. -/
def tryRollback (p : Serving) (sharedBlocks : List Block) (needsEmbeddingId : Bool) :
    Except Check Serving := do
  let p ← if sharedBlocks = [] then .ok p
    else do
      let m ← p.rank.blockManager.deallocate sharedBlocks
      (p.setManager m).resetSequence
  if needsEmbeddingId then p.deallocateEmbeddingId else .ok p

/-- The blocks that `try_allocate` asks for besides the matched ones. -/
def numBlocksNeeded (p : Serving) (sharedNum : Nat) : Nat :=
  (subSize p.sequence.numTokens (sharedNum * p.blockSize) + p.blockSize - 1) % 2 ^ 64 / p.blockSize

/-- The second part of `try_allocate`. The matched vector is destroyed on return. -/
def tryMore (p : Serving) (sharedBlocks : List Block) (needsEmbeddingId : Bool) :
    Except Check (Bool × Serving) := do
  let needed := p.numBlocksNeeded sharedBlocks.length
  let (blocks, m) ← p.rank.blockManager.allocate needed
  let p := p.setManager m
  if blocks.length = needed then
    let kvState ← (p.sequence.kvState.addKvBlocks blocks).incrKvCacheTokensNum
      p.sequence.numTokens
    let heap ← p.rank.blockManager.heap.decAll sharedBlocks
    .ok (true, (p.setHeap heap).setKvState kvState)
  else
    let p ← p.tryRollback sharedBlocks needsEmbeddingId
    let heap ← p.rank.blockManager.heap.decAll sharedBlocks
    .ok (false, p.setHeap heap)

def tryAllocate (p : Serving) : Except Check (Bool × Serving) := do
  let needsEmbeddingId := !p.sequence.hasEmbeddingId
  let (ok, p) ← p.allocateEmbeddingId
  if ok then
    let (sharedBlocks, p) ← p.tryShared
    p.tryMore sharedBlocks needsEmbeddingId
  else .ok (false, p)

end

end Serving

end Xllm
