import Xllm.Block.Pool

/-!
# The pool with host blocks

`HierarchyBlockManagerPool` keeps a second copy of blocks on the host. A sequence that
does not decode yet matches the host's prefix cache once; what it finds there beyond its
device tokens is loaded into its device blocks. When a sequence is released, computed
blocks that only it and the device's prefix cache hold are offloaded to host blocks.
-/

namespace Xllm

open Contract

structure OffloadBlockPair where
  src : Block
  dst : Block
  deriving DecidableEq

namespace Serving

def setHostKvState (p : Serving) (kvState : KVCacheState) : Serving :=
  { p with sequence := { p.sequence with hostKvState := kvState } }

def setHostManager (p : Serving) (m : BlockManagerImpl) : Serving :=
  { p with rank := { p.rank with hostBlockManager := m } }

/-- The load of `HierarchyBlockManagerPool::allocate`: pairs of host and device blocks.
Blocks are indexed without a check. -/
def loadHost (p : Serving) : Except Check (List (Block × Block) × Serving) :=
  let hbmCacheTokenNum := p.sequence.kvState.kvCacheTokensNum
  let hostCacheTokenNum := p.sequence.hostKvState.kvCacheTokensNum
  if hbmCacheTokenNum < hostCacheTokenNum then do
    let first := hbmCacheTokenNum / p.blockSize
    let loaded ← (List.range' first (hostCacheTokenNum / p.blockSize - first)).mapM fun i =>
      match p.sequence.hostKvState.blocks[i]?, p.sequence.kvState.blocks[i]? with
      | some host, some hbm => .ok (host, hbm)
      | _, _ => .error .outOfBounds
    let kvState ← p.sequence.kvState.incrKvCacheTokensNum (hostCacheTokenNum - hbmCacheTokenNum)
    .ok (loaded, p.setKvState kvState)
  else .ok ([], p)

/-- The loop of `deallocate`: a block whose only other holder is the device's prefix cache
moves into the queue, together with its host block, which gets its hash value. -/
def offloadLoop (p : Serving) : List Nat → Except Check (List OffloadBlockPair × Serving)
  | [] => .ok ([], p)
  | i :: rest =>
      match p.sequence.kvState.blocks[i]?, p.sequence.hostKvState.blocks[i]? with
      | some b, some h =>
          if p.rank.blockManager.heap.refCount b ≠ 2 then offloadLoop p rest
          else do
            let dst := h.setHashValue b.hashValue b.hashTokens
            let p := p.setKvState { p.sequence.kvState with
              blocks := p.sequence.kvState.blocks.set i b.movedFrom }
            let p := p.setHostKvState { p.sequence.hostKvState with
              blocks := p.sequence.hostKvState.blocks.set i dst.movedFrom }
            let (pairs, p) ← offloadLoop p rest
            .ok (⟨b, dst⟩ :: pairs, p)
      | _, _ => .error .outOfBounds

/-- Both managers count the blocks down, and the sequence is reset. -/
def dropBoth (p : Serving) : Except Check Serving := do
  let m ← p.rank.hostBlockManager.deallocate p.sequence.hostKvState.blocks
  (p.setHostManager m).drop true

def offload (p : Serving) : Except Check (List OffloadBlockPair × Serving) := do
  let cachedHostBlockNum := p.sequence.hostKvState.kvCacheTokensNum / p.blockSize
  let cachedDeviceBlockNum := p.sequence.kvState.kvCacheTokensNum / p.blockSize
  let neededBlockNum := cachedDeviceBlockNum - p.sequence.hostKvState.numKvBlocks
  let p ← if neededBlockNum = 0 then .ok p
    else do
      let (blocks, m) ← p.rank.hostBlockManager.allocate neededBlockNum
      .ok ((p.setHostManager m).setHostKvState (p.sequence.hostKvState.addKvBlocks blocks))
  p.offloadLoop (List.range' cachedHostBlockNum
    (p.sequence.hostKvState.numKvBlocks - cachedHostBlockNum))

section

variable [XXH3]

/-- `allocate_host_shared`. The host managers have the pool's prefix-cache option. -/
def allocateHostShared (p : Serving) : Except Check Serving := do
  if p.rank.blockManager.options.enablePrefixCache then
    let (sharedBlocks, m) ← p.rank.hostBlockManager.allocateShared p.sequence.tokens []
    let (kvState, heap) ←
      p.sequence.hostKvState.addSharedKvBlocks sharedBlocks p.sequence.numTokens m.heap
    .ok ((p.setHostManager { m with heap := heap }).setHostKvState kvState)
  else .ok p

/-- The host's prefix cache is matched for a sequence without host blocks, before it
decodes. -/
def matchHost (p : Serving) : Except Check Serving :=
  if p.sequence.hostKvState.numKvBlocks = 0 ∧ p.sequence.stage ≠ .decode then
    p.allocateHostShared
  else .ok p

def allocateSharedHierarchy (p : Serving) : Except Check Serving := do
  let p ← p.allocateShared
  p.matchHost

/-- `HierarchyBlockManagerPool::allocate`, with the pairs it queues for loading. -/
def allocateHierarchy (p : Serving) (numTokens : Nat) :
    Except Check (Bool × List (Block × Block) × Serving) := do
  let (ok, p) ← p.allocate numTokens
  if ok then
    let p ← p.matchHost
    let (loaded, p) ← p.loadHost
    .ok (true, loaded, p)
  else .ok (false, [], p)

def deallocateHierarchy (p : Serving) : Except Check (List OffloadBlockPair × Serving) := do
  let p ← p.cache
  if p.sequence.kvState.numKvBlocks ≤ p.sequence.hostKvState.numKvBlocks then
    let p ← p.dropBoth
    .ok ([], p)
  else
    let (pairs, p) ← p.offload
    let p ← p.dropBoth
    .ok (pairs, p)

end

end Serving

end Xllm
