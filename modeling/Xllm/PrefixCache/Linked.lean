import Xllm.Lib.IntrusiveList
import Xllm.PrefixCache.Exact
import Xllm.Util.KeyEquality

/-!
# The nodes of the prefix cache in memory

`PrefixCache` with its `DNodeList`s as they are: nodes at addresses, linked through
`prev` and `next`, and sentinels that belong to the list of the cache or to the
local `node_list` of a running call. A node is in a list only because the pointers
say so, and `remove_node` does not ask in which one. `delete` ends the life of a
node, and an access to a dead node is the error `danglingNode`.

`cached_blocks_` is the unordered map with its own functors; `hash` stands for
`std::hash<std::string_view>`. The loops that follow pointers get a number of
rounds, and `roundsExceeded` is what they return when it does not suffice.
-/

namespace Xllm

open Contract IntrusiveList

/-- The addresses of the nodes of one cache: the sentinels of `lru_lst_` and of the
running call's `node_list`, and the nodes from `new Node()`. -/
inductive Addr where
  | lruFront
  | lruBack
  | listFront
  | listBack
  | node (p : Nat)
  deriving DecidableEq

/-- `PrefixCache`, with `lru_lst_` in the memory of its nodes. -/
structure LinkedPrefixCache where
  blockSize : Nat
  numBlocks : Nat := 0
  cachedBlocks : List (XXH3Key × Addr) := []
  memory : Memory Addr Block := Memory.empty.init .lruFront .lruBack {}
  nextNode : Nat := 0

/-- Following a pointer. -/
def deref {α : Type} (x : Option α) : Except Check α :=
  match x with
  | some a => .ok a
  | none => .error .danglingNode

def deleteNode (m : Memory Addr Block) (s : BlockHeap) (node : Addr) :
    Except Check (Memory Addr Block × BlockHeap) := do
  let block ← deref (m.value node)
  let s ← s.decRefCount block
  .ok (m.free node, s)

namespace LinkedPrefixCache

def numBlocksChecked (c : LinkedPrefixCache) : Except Check Nat :=
  if c.numBlocks = c.cachedBlocks.length then .ok c.numBlocks else .error .blockNum

/-- `DNodeList node_list;` -/
def openList (c : LinkedPrefixCache) : LinkedPrefixCache :=
  { c with memory := c.memory.init .listFront .listBack {} }

/-- `while (!node_list.is_empty())`: pop its front to the back of the LRU list. -/
def drain (c : LinkedPrefixCache) : Except Check LinkedPrefixCache :=
  loop (fun c => c.memory.isEmpty .listFront .listBack ≠ some true)
    (fun c => do
      let (node, m) ← deref (c.memory.popFront .listFront .listBack)
      let m ← deref (m.pushBack .lruBack (← deref node))
      .ok (true, { c with memory := m }))
    .roundsExceeded c.cachedBlocks.length c

def destroyLoop : Nat → Addr → Memory Addr Block → BlockHeap →
    Except Check (Memory Addr Block × BlockHeap)
  | 0, node, m, s => if node = .listBack then .ok (m, s) else .error .roundsExceeded
  | rounds + 1, node, m, s =>
      if node = .listBack then .ok (m, s)
      else do
        let next ← deref (m.next node)
        let (m, s) ← deleteNode m s node
        destroyLoop rounds next m s

/-- `~DNodeList` of `node_list`, and the end of its sentinels. -/
def closeList (c : LinkedPrefixCache) (s : BlockHeap) :
    Except Check (LinkedPrefixCache × BlockHeap) := do
  let first ← deref (c.memory.next .listFront)
  let (m, s) ← destroyLoop c.cachedBlocks.length first c.memory s
  .ok ({ c with memory := (m.free .listFront).free .listBack }, s)

/-- The variables that the loops of `match` and `insert` change. -/
structure Pass where
  cache : LinkedPrefixCache
  heap : BlockHeap
  insertKeys : List XXH3Key := []

namespace Pass

/-- `lru_lst_.remove_node(node); node_list.push_front(node);` -/
def touch (w : Pass) (node : Addr) : Except Check Pass := do
  let (_, m) ← deref (w.cache.memory.removeNode node)
  let m ← deref (m.pushFront .listFront node)
  .ok { w with cache := { w.cache with memory := m } }

/-- A new node with a copy of the block, in `node_list` and in the map. -/
def create (hash : List UInt8 → UInt64) (w : Pass) (key : XXH3Key) (block : Block) :
    Except Check Pass := do
  let node := Addr.node w.cache.nextNode
  let m ← deref ((w.cache.memory.alloc node block).pushFront .listFront node)
  .ok { cache := { w.cache with
          memory := m
          nextNode := w.cache.nextNode + 1
          cachedBlocks := unorderedEmplace hash w.cache.cachedBlocks key node
          numBlocks := w.cache.numBlocks + 1 }
        heap := w.heap.incRefCount block
        insertKeys := w.insertKeys ++ [key] }

/-- The body shared by both `insert` loops once the key is known. -/
def store (hash : List UInt8 → UInt64) (w : Pass) (key : XXH3Key) (block : Block) :
    Except Check Pass :=
  match unorderedFind hash w.cache.cachedBlocks key with
  | some e => w.touch e.2
  | none => w.create hash key block

/-- The end of a call: `node_list` goes behind the LRU list and is destroyed. -/
def finish (w : Pass) : Except Check Pass := do
  let cache ← w.cache.drain
  let (cache, heap) ← cache.closeList w.heap
  .ok { w with cache := cache, heap := heap }

end Pass

/-- What a call of `insert` leaves behind. -/
structure Inserted where
  nTokens : Nat
  blocks : List Block
  insertKeys : List XXH3Key := []
  cache : LinkedPrefixCache
  heap : BlockHeap

section

variable [XXH3]

/-- The loop of `match`, over the token blocks still to be looked up. -/
def matchLoop (hash : List UInt8 → UInt64) : List (List Token) → Option XXH3Key → List Block →
    Pass → Except Check (List Block × Pass)
  | [], _, blocks, w => .ok (blocks, w)
  | tokens :: rest, preHash, blocks, w => do
      let key ← xxh3128bitsHash preHash tokens
      match unorderedFind hash w.cache.cachedBlocks key with
      | some e => do
          let block ← deref (w.cache.memory.value e.2)
          let w ← w.touch e.2
          matchLoop hash rest (some key) (blocks ++ [block])
            { w with heap := w.heap.incRefCount block }
      | none => .ok (blocks, w)

def matchTokens (hash : List UInt8 → UInt64) (c : LinkedPrefixCache) (s : BlockHeap)
    (tokenIds : List Token) (existedSharedBlocks : List Block) :
    Except Check (List Block × LinkedPrefixCache × BlockHeap) :=
  if PrefixCache.roundDown tokenIds.length c.blockSize = 0 then .ok ([], c, s)
  else do
    let preHash := existedSharedBlocks.getLast?.map Block.hashValue
    let (blocks, w) ← matchLoop hash
      ((tokenBlocks c.blockSize tokenIds).drop existedSharedBlocks.length) preHash
      existedSharedBlocks { cache := c.openList, heap := s.incAll existedSharedBlocks }
    let w ← w.finish
    .ok (blocks, w.cache, w.heap)

/-- The loop of the first `insert`. Returns the stamped blocks. -/
def insertLoop (hash : List UInt8 → UInt64) (blockSize : Nat) (tokenIds : List Token) :
    List (List Token × Block) → Nat → Option XXH3Key → Pass → Except Check (List Block × Pass)
  | [], _, _, w => .ok ([], w)
  | (tokens, block) :: rest, blockIdx, preHash, w => do
      let key ← xxh3128bitsHash preHash tokens
      let block := block.setHashValue key (tokenIds.take ((blockIdx + 1) * blockSize))
      let w ← w.store hash key block
      let (stamped, w) ← insertLoop hash blockSize tokenIds rest (blockIdx + 1) (some key) w
      .ok (block :: stamped, w)

def insert (hash : List UInt8 → UInt64) (c : LinkedPrefixCache) (s : BlockHeap)
    (tokenIds : List Token) (blocks : List Block) (existedSharedBlocksNum : Nat) :
    Except Check Inserted :=
  let nBlocks := min (tokenIds.length / c.blockSize) blocks.length
  if nBlocks = 0 then .ok { nTokens := 0, blocks := blocks, cache := c, heap := s }
  else if nBlocks < existedSharedBlocksNum then .error .sharedBeyondCached
  else do
    let preHash :=
      if existedSharedBlocksNum = 0 then none
      else blocks[existedSharedBlocksNum - 1]?.map Block.hashValue
    let todo := ((tokenBlocks c.blockSize tokenIds).zip blocks).drop existedSharedBlocksNum
    let (stamped, w) ← insertLoop hash c.blockSize tokenIds todo existedSharedBlocksNum preHash
      { cache := c.openList, heap := s }
    let w ← w.finish
    .ok { nTokens := nBlocks * c.blockSize
          blocks := blocks.take existedSharedBlocksNum ++ stamped ++ blocks.drop nBlocks
          insertKeys := w.insertKeys
          cache := w.cache
          heap := w.heap }

end

def insertBlocksLoop (hash : List UInt8 → UInt64) : List Block → Pass → Except Check Pass
  | [], w => .ok w
  | block :: rest, w => do
      let w ← if block.isValid then w.store hash block.hashValue block else .ok w
      insertBlocksLoop hash rest w

def insertBlocks (hash : List UInt8 → UInt64) (c : LinkedPrefixCache) (s : BlockHeap)
    (blocks : List Block) : Except Check Inserted := do
  let w ← insertBlocksLoop hash blocks { cache := c.openList, heap := s }
  let w ← w.finish
  .ok { nTokens := blocks.length * c.blockSize
        blocks := blocks
        insertKeys := w.insertKeys
        cache := w.cache
        heap := w.heap }

/-- What a call of `evict` leaves behind. -/
structure Evicted where
  evictCount : Nat := 0
  evictKeys : List XXH3Key := []
  cache : LinkedPrefixCache
  heap : BlockHeap

/-- The end of the loop body of `evict`: `del_node` leaves the list, the map and the
memory. Returns the next `iter_node`. -/
def evictNode (hash : List UInt8 → UInt64) (r : Evicted) (node : Addr) (block : Block) :
    Except Check (Addr × Evicted) := do
  let (next, m) ← deref (r.cache.memory.removeNode node)
  let key := block.hashValue
  let (m, heap) ← deleteNode m r.heap node
  .ok (next,
    { evictCount := r.evictCount + 1
      evictKeys := r.evictKeys ++ [key]
      cache := { r.cache with
        memory := m
        cachedBlocks := unorderedErase hash r.cache.cachedBlocks key
        numBlocks := r.cache.numBlocks - 1 }
      heap := heap })

def evictLoop (hash : List UInt8 → UInt64) (nBlocks : Nat) : Nat → Addr → Evicted →
    Except Check Evicted
  | 0, node, r =>
      if r.evictCount < nBlocks ∧ node ≠ .lruBack then .error .roundsExceeded else .ok r
  | rounds + 1, node, r =>
      if r.evictCount < nBlocks ∧ node ≠ .lruBack then do
        let block ← deref (r.cache.memory.value node)
        if r.heap.isShared block then do
          let next ← deref (r.cache.memory.next node)
          evictLoop hash nBlocks rounds next r
        else do
          let (next, r) ← evictNode hash r node block
          evictLoop hash nBlocks rounds next r
      else .ok r

def evict (hash : List UInt8 → UInt64) (c : LinkedPrefixCache) (s : BlockHeap) (nBlocks : Nat) :
    Except Check Evicted := do
  let empty ← deref (c.memory.isEmpty .lruFront .lruBack)
  if c.numBlocks = 0 ∨ empty = true then .ok { cache := c, heap := s }
  else do
    let first ← deref (c.memory.next .lruFront)
    evictLoop hash nBlocks c.cachedBlocks.length first { cache := c, heap := s }

/-- One call, and the cache that it leaves. -/
def step [XXH3] (hash : List UInt8 → UInt64) (c : LinkedPrefixCache) :
    PrefixCache.CacheOp → Except Check LinkedPrefixCache
  | .insert heap tokenIds blocks k => do
      let r ← c.insert hash heap tokenIds blocks k
      .ok r.cache
  | .insertBlocks heap blocks => do
      let r ← c.insertBlocks hash heap blocks
      .ok r.cache
  | .matchTokens heap tokenIds existed => do
      let (_, cache, _) ← c.matchTokens hash heap tokenIds existed
      .ok cache
  | .evict heap n => do
      let r ← c.evict hash heap n
      .ok r.cache

end LinkedPrefixCache

end Xllm
