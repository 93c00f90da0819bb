import Xllm.Block.Basic

/-!
# The prefix cache

`PrefixCache` maps the chained key of a token prefix to a node that holds the
block with the keys and values of the prefix's last block of tokens. The nodes
are linked in access order, least recently used first. Node addresses, the node
memory, the map and the linked list are kept apart as in the source, so that
their agreement is something to prove.

Unlinking a node is a pointer operation: `remove_node` takes it out of whichever
list it is in, the cache's list or the local `node_list` of a running pass.
`last_access_time` and the hit counters are written but never read by the
modelled code, and are left out.
-/

namespace Xllm

open Contract

/-- `PrefixCache`. `node` is the node memory: the block of the node at an address. -/
structure PrefixCache where
  blockSize : Nat
  numBlocks : Nat := 0
  cachedBlocks : List (XXH3Key × Nat) := []
  lruLst : List Nat := []
  node : Nat → Block := fun _ => {}
  nextNode : Nat := 0

namespace PrefixCache

def find (c : PrefixCache) (key : XXH3Key) : Option Nat :=
  (c.cachedBlocks.find? fun e => e.1 = key).map Prod.snd

def roundDown (n multiple : Nat) : Nat := n / multiple * multiple

/-- The variables that the loops of `match` and `insert` change: the cache, the
heap, the local `node_list` (front first), and the keys newly inserted. -/
structure Pass where
  cache : PrefixCache
  heap : BlockHeap
  nodeList : List Nat := []
  insertKeys : List XXH3Key := []

namespace Pass

/-- `lru_lst_.remove_node(node); node_list.push_front(node);` -/
def touch (w : Pass) (p : Nat) : Pass :=
  { w with
    cache := { w.cache with lruLst := w.cache.lruLst.filter (· ≠ p) }
    nodeList := p :: w.nodeList.filter (· ≠ p) }

/-- Pop the front of `node_list` to the back of the LRU list until it is empty. -/
def finish (w : Pass) : PrefixCache :=
  { w.cache with lruLst := w.cache.lruLst ++ w.nodeList }

/-- The body shared by both `insert` loops once the key is known: touch the
node under the key, or create one that holds a copy of the block. -/
def store (w : Pass) (key : XXH3Key) (block : Block) : Pass :=
  match w.cache.find key with
  | some p => w.touch p
  | none =>
      let p := w.cache.nextNode
      { cache := { w.cache with
          node := Function.update w.cache.node p block
          nextNode := p + 1
          cachedBlocks := (key, p) :: w.cache.cachedBlocks
          numBlocks := w.cache.numBlocks + 1 }
        heap := w.heap.incRefCount block
        nodeList := p :: w.nodeList
        insertKeys := w.insertKeys ++ [key] }

end Pass

section

variable [XXH3]

/-- The loop of `match`, over the token blocks still to be looked up. -/
def matchLoop : List (List Token) → Option XXH3Key → List Block → Pass →
    Except Check (List Block × Pass)
  | [], _, blocks, w => .ok (blocks, w)
  | tokens :: rest, preHash, blocks, w => do
      let key ← xxh3128bitsHash preHash tokens
      match w.cache.find key with
      | some p =>
          let block := w.cache.node p
          matchLoop rest (some key) (blocks ++ [block])
            { w.touch p with heap := w.heap.incRefCount block }
      | none => .ok (blocks, w)

def matchTokens (c : PrefixCache) (s : BlockHeap) (tokenIds : List Token)
    (existedSharedBlocks : List Block) : Except Check (List Block × PrefixCache × BlockHeap) :=
  if roundDown tokenIds.length c.blockSize = 0 then .ok ([], c, s)
  else do
    let preHash := existedSharedBlocks.getLast?.map Block.hashValue
    let (blocks, w) ← matchLoop
      ((tokenBlocks c.blockSize tokenIds).drop existedSharedBlocks.length) preHash
      existedSharedBlocks { cache := c, heap := s.incAll existedSharedBlocks }
    .ok (blocks, w.finish, w.heap)

/-- What a call of `insert` leaves behind: the blocks whose hash values it set,
the inserted keys and the returned length. -/
structure Inserted where
  nTokens : Nat
  blocks : List Block
  insertKeys : List XXH3Key := []
  cache : PrefixCache
  heap : BlockHeap

/-- The loop of the first `insert`: hash one block of tokens, stamp the block at
the same index, and store it. Returns the stamped blocks. -/
def insertLoop (blockSize : Nat) (tokenIds : List Token) :
    List (List Token × Block) → Nat → Option XXH3Key → Pass → Except Check (List Block × Pass)
  | [], _, _, w => .ok ([], w)
  | (tokens, block) :: rest, blockIdx, preHash, w => do
      let key ← xxh3128bitsHash preHash tokens
      let block := block.setHashValue key (tokenIds.take ((blockIdx + 1) * blockSize))
      let (stamped, w) ← insertLoop blockSize tokenIds rest (blockIdx + 1) (some key)
        (w.store key block)
      .ok (block :: stamped, w)

/-- `PrefixCache::insert` of token ids and blocks, of which the first
`existed_shared_blocks_num` carry their hash values already. -/
def insert (c : PrefixCache) (s : BlockHeap) (tokenIds : List Token) (blocks : List Block)
    (existedSharedBlocksNum : Nat) : Except Check Inserted :=
  let nBlocks := min (tokenIds.length / c.blockSize) blocks.length
  if nBlocks = 0 then .ok { nTokens := 0, blocks := blocks, cache := c, heap := s }
  else if nBlocks < existedSharedBlocksNum then .error .sharedBeyondCached
  else do
    let preHash :=
      if existedSharedBlocksNum = 0 then none
      else blocks[existedSharedBlocksNum - 1]?.map Block.hashValue
    let todo := ((tokenBlocks c.blockSize tokenIds).zip blocks).drop existedSharedBlocksNum
    let (stamped, w) ← insertLoop c.blockSize tokenIds todo existedSharedBlocksNum preHash
      { cache := c, heap := s }
    .ok { nTokens := nBlocks * c.blockSize
          blocks := blocks.take existedSharedBlocksNum ++ stamped ++ blocks.drop nBlocks
          insertKeys := w.insertKeys
          cache := w.finish
          heap := w.heap }

end

/-- The loop of the second `insert`: every valid block goes under the hash value
it carries. -/
def insertBlocksLoop : List Block → Pass → Pass
  | [], w => w
  | block :: rest, w =>
      insertBlocksLoop rest (if block.isValid then w.store block.hashValue block else w)

def insertBlocks (c : PrefixCache) (s : BlockHeap) (blocks : List Block) : Inserted :=
  let w := insertBlocksLoop blocks { cache := c, heap := s }
  { nTokens := blocks.length * c.blockSize
    blocks := blocks
    insertKeys := w.insertKeys
    cache := w.finish
    heap := w.heap }

/-- What a call of `evict` leaves behind. -/
structure Evicted where
  evictCount : Nat := 0
  evictKeys : List XXH3Key := []
  cache : PrefixCache
  heap : BlockHeap

/-- The loop of `evict`, over the nodes from `iter_node` to the end of the list.
A shared block is in use and its node is skipped. -/
def evictLoop (nBlocks : Nat) : List Nat → Evicted → Except Check Evicted
  | [], r => .ok r
  | p :: rest, r =>
      if r.evictCount < nBlocks then
        let block := r.cache.node p
        if r.heap.isShared block then evictLoop nBlocks rest r
        else do
          let heap ← r.heap.decRefCount block
          evictLoop nBlocks rest
            { evictCount := r.evictCount + 1
              evictKeys := r.evictKeys ++ [block.hashValue]
              cache := { r.cache with
                lruLst := r.cache.lruLst.filter (· ≠ p)
                cachedBlocks := r.cache.cachedBlocks.filter (·.1 ≠ block.hashValue)
                numBlocks := r.cache.numBlocks - 1 }
              heap := heap }
      else .ok r

def evict (c : PrefixCache) (s : BlockHeap) (nBlocks : Nat) : Except Check Evicted :=
  if c.numBlocks = 0 ∨ c.lruLst = [] then .ok { cache := c, heap := s }
  else evictLoop nBlocks c.lruLst { cache := c, heap := s }

end PrefixCache

end Xllm
