import Xllm.PrefixCache.Refine

/-!
# The block manager

`BlockManagerImpl` owns the heap of block ids, one padding handle for block 0 and
the prefix cache. It hands out handles and keeps `num_used_blocks_`, a counter
of the blocks that sequences use.

`Sound m live` is the manager's side of the ledger: the live handles are the
padding handle, those of the cache's nodes, and `live`, which the callers hold.
Every member has one contract against it.
-/

namespace Xllm

open Contract Ledger

/-- `BlockManager::Options`, as far as the modelled members read them. -/
structure Options where
  numBlocks : Nat
  blockSize : Nat
  enablePrefixCache : Bool := true
  deriving DecidableEq

/-- Pop `n` ids and construct their first handles. -/
def BlockHeap.takeBlocks (s : BlockHeap) (size : Nat) : Nat → List Block × BlockHeap
  | 0 => ([], s)
  | n + 1 =>
      let (block, s) := s.takeBlock size
      let (blocks, s) := s.takeBlocks size n
      (block :: blocks, s)

/-- `BlockManagerImpl`. Without `enable_prefix_cache` the cache is never used. -/
structure BlockManagerImpl where
  options : Options
  heap : BlockHeap
  numUsedBlocks : Nat := 0
  paddingBlock : Block
  prefixCache : PrefixCache

namespace BlockManagerImpl

/-- The constructor. Smaller ids are at the back of the stack, and block 0 is
taken at once. -/
def create (options : Options) : Except Check BlockManagerImpl :=
  if options.numBlocks = 0 then .error .noBlocksToAllocate
  else if options.blockSize = 0 then .error .blockSizeNotPositive
  else
    let totalBlocks := options.numBlocks
    let heap : BlockHeap :=
      { refCounts := fun _ => 0
        nextRef := 0
        freeBlocks := (List.range totalBlocks).map fun (i : Nat) => (totalBlocks : Int) - i - 1
        numFreeBlocks := totalBlocks }
    let (paddingBlock, heap) := heap.takeBlock options.blockSize
    if paddingBlock.id = 0 then
      .ok { options := options
            heap := heap
            paddingBlock := paddingBlock
            prefixCache := { blockSize := options.blockSize } }
    else .error .paddingBlockNotZero

/-- `has_enough_blocks`, whose parameter is a `uint32_t`. -/
def hasEnoughBlocks (m : BlockManagerImpl) (numBlocks : Nat) :
    Except Check (Bool × BlockManagerImpl) :=
  let numBlocks := numBlocks % 2 ^ 32
  if numBlocks ≤ m.heap.numFreeBlocks then .ok (true, m)
  else if !m.options.enablePrefixCache then .ok (false, m)
  else do
    let nBlocksToEvict := numBlocks - m.heap.numFreeBlocks
    let r ← m.prefixCache.evict m.heap nBlocksToEvict
    let m := { m with prefixCache := r.cache, heap := r.heap }
    if r.evictCount < nBlocksToEvict then .ok (false, m)
    else .ok (decide (numBlocks ≤ m.heap.numFreeBlocks), m)

def allocate (m : BlockManagerImpl) (numBlocks : Nat) :
    Except Check (List Block × BlockManagerImpl) := do
  let (enough, m) ← m.hasEnoughBlocks numBlocks
  if !enough then .ok ([], m)
  else if numBlocks ≤ m.heap.numFreeBlocks then
    let (blocks, heap) := m.heap.takeBlocks m.options.blockSize numBlocks
    .ok (blocks, { m with heap := heap, numUsedBlocks := m.numUsedBlocks + numBlocks })
  else .error .notEnoughBlocks

/-- `allocate()`: one block, not counted as used. -/
def allocateOne (m : BlockManagerImpl) : Except Check (Block × BlockManagerImpl) :=
  if 0 < m.heap.numFreeBlocks then
    let (block, heap) := m.heap.takeBlock m.options.blockSize
    .ok (block, { m with heap := heap })
  else .error .noMoreBlocks

/-- The block counts as used by the caller alone: it is valid and at most the
caller and the cache hold it. -/
def releasable (m : BlockManagerImpl) (b : Block) : Bool :=
  b.isValid && m.heap.refCount b ≤ 2

/-- The loop of `deallocate` with the prefix cache. -/
def deallocateLoop (m : BlockManagerImpl) : List Block → Nat → Except Check Nat
  | [], used => .ok used
  | b :: bs, used =>
      if m.releasable b then
        if used = 0 then .error .blockAlreadyReleased else m.deallocateLoop bs (used - 1)
      else m.deallocateLoop bs used

/-- `deallocate` only updates the counter; the handles are dropped by the caller. -/
def deallocate (m : BlockManagerImpl) (blocks : List Block) : Except Check BlockManagerImpl := do
  if m.options.enablePrefixCache then
    let used ← m.deallocateLoop blocks m.numUsedBlocks
    .ok { m with numUsedBlocks := used }
  else
    .ok { m with
      numUsedBlocks := (m.numUsedBlocks + (2 ^ 64 - blocks.length % 2 ^ 64)) % 2 ^ 64 }

section

variable [XXH3]

/-- `allocate_shared`: match, and count the blocks that nobody else uses. -/
def allocateShared (m : BlockManagerImpl) (tokensIds : List Token)
    (existedSharedBlocks : List Block) : Except Check (List Block × BlockManagerImpl) := do
  if m.options.enablePrefixCache then
    let (sharedBlocks, cache, heap) ←
      m.prefixCache.matchTokens m.heap tokensIds existedSharedBlocks
    .ok (sharedBlocks,
      { m with
        prefixCache := cache
        heap := heap
        numUsedBlocks := m.numUsedBlocks + sharedBlocks.countP fun b => heap.refCount b ≤ 2 })
  else .ok ([], m)

def cache (m : BlockManagerImpl) (tokenIds : List Token) (blocks : List Block)
    (existedSharedBlocksNum : Nat) : Except Check (List Block × BlockManagerImpl) := do
  if m.options.enablePrefixCache then
    let r ← m.prefixCache.insert m.heap tokenIds blocks existedSharedBlocksNum
    .ok (r.blocks, { m with prefixCache := r.cache, heap := r.heap })
  else .ok (blocks, m)

end

def cacheBlocks (m : BlockManagerImpl) (blocks : List Block) : BlockManagerImpl :=
  if m.options.enablePrefixCache then
    let r := m.prefixCache.insertBlocks m.heap blocks
    { m with prefixCache := r.cache, heap := r.heap }
  else m

end BlockManagerImpl

end Xllm
