import Xllm.Util.Int32Map
import Xllm.Lib.Lru
import Mathlib.Data.Rat.Init

/-!
# The suffix decoding cache

The cache has a suffix tree for every active request and one global tree for the responses of
all cached requests. A cached request has a sequence id; the ids are recycled, and old requests
are evicted.

Of a suffix tree only the sequences are modelled. What happens to its nodes is a parameter: the
containers of the cache do not depend on it.
-/

namespace Xllm.SuffixCache

open Contract Int32Maps

/-- What stops a call without an exception: an assertion or a full map, or a loop that does not
end. -/
inductive Stop
  | map (a : Int32Maps.Abort)
  | endless

def onMap {α : Type} (x : Except Int32Maps.Abort α) : Except Stop α := x.mapError .map

/-- Functions that may throw also tell whether they returned. When the first part of a function
throws, the rest of it is skipped. -/
def andThen {σ : Type} (first : Except Stop (Bool × σ)) (rest : σ → Except Stop (Bool × σ)) :
    Except Stop (Bool × σ) := do
  let (returned, s) ← first
  if returned then rest s else .ok (false, s)

structure Draft where
  tokenIds : List Int32 := []
  parents : List Int32 := []
  probs : List Rat := []
  score : Rat := 0
  matchLen : Int32 := 0

structure Query where
  context : List Int32
  maxSpecTokens : Option Int := none
  maxSpecFactor : Rat := 1
  maxSpecOffset : Rat := 0
  minTokenProb : Rat := 1 / 10
  useTreeSpec : Bool := false

/-- What the functions of a suffix tree do to its nodes. -/
structure Nodes (N : Type) where
  root : N
  /-- The loop of `append` over the active nodes of a sequence. -/
  append : N → Int32Map (List Int32) → Int32 → Int32 → N
  /-- What `append` has done when the search for a reserved token throws. -/
  interrupted : N → Int32Map (List Int32) → Int32 → N
  remove : N → Int32Map (List Int32) → Int32 → N
  /-- What `remove` has done when the search for a reserved token throws. -/
  interruptedRemove : N → Int32Map (List Int32) → Int32 → N
  /-- `speculate`; `none` is an exception. -/
  speculate : N → Int32Map (List Int32) → Query → Int → Option Draft

variable {N : Type}

structure SuffixTree (N : Type) where
  seqs : Int32Map (List Int32) := {}
  nodes : N

namespace SuffixTree

variable (ops : Nodes N) (maxDepth : Int)

/-- The token is appended to the sequence, which is created when it is missing. With depth zero
there is no active node, and the token is not looked up. -/
def append (t : SuffixTree N) (seqId token : Int32) : Except Stop (Bool × SuffixTree N) := do
  let (idx, seqs) ← onMap (t.seqs.emplace seqId [])
  let seqs := seqs.assignAt idx seqId ((seqs.valueAt idx).getD [] ++ [token])
  if maxDepth ≠ 0 ∧ Reserved token then
    .ok (false, { seqs, nodes := ops.interrupted t.nodes seqs seqId })
  else .ok (true, { seqs, nodes := ops.append t.nodes seqs seqId token })

def extend (t : SuffixTree N) (seqId : Int32) : List Int32 → Except Stop (Bool × SuffixTree N)
  | [] => .ok (true, t)
  | token :: tokens => do
      let (returned, t) ← append ops maxDepth t seqId token
      if returned then extend t seqId tokens else .ok (false, t)

/-- The walk along the suffix that begins with a token looks this token up at the root, so a
reserved one is found at the latest there. -/
def remove (t : SuffixTree N) (seqId : Int32) : Except Stop (Bool × SuffixTree N) := do
  let (idx, seqs) ← onMap (t.seqs.emplace seqId [])
  if ∃ token ∈ (seqs.valueAt idx).getD [], Reserved token then
    .ok (false, { seqs, nodes := ops.interruptedRemove t.nodes seqs seqId })
  else
    let nodes := ops.remove t.nodes seqs seqId
    let (_, seqs) ← onMap (seqs.erase seqId)
    .ok (true, { seqs, nodes })

end SuffixTree

structure SuffixDecodingCache (N : Type) where
  maxTreeDepth : Int
  maxCachedRequests : Int
  globalTree : SuffixTree N
  localTrees : String → Option (SuffixTree N) := fun _ => none
  reqToSeqId : List (String × Int32) := []
  seqToReqId : Int32Map String := {}
  nextSeqId : Nat := 0
  cacheOrder : List String := []

/-- The number of sequence ids; they are masked with `0x7FFFFFFF`. -/
def seqIdCount : Nat := 2147483648

namespace SuffixDecodingCache

def hasActiveRequest (c : SuffixDecodingCache N) (reqId : String) : Bool :=
  (c.localTrees reqId).isSome

def seqIdOf (c : SuffixDecodingCache N) (reqId : String) : Option Int32 :=
  (Lru.lookup Prod.fst c.reqToSeqId reqId).map Prod.snd

def hasCachedRequest (c : SuffixDecodingCache N) (reqId : String) : Bool :=
  (c.seqIdOf reqId).isSome

variable (ops : Nodes N)

def removeEntry (c : SuffixDecodingCache N) (reqId : String) (seqId : Int32) :
    Except Stop (Bool × SuffixDecodingCache N) := do
  let (_, seqToReqId) ← onMap (c.seqToReqId.erase seqId)
  let (returned, globalTree) ← c.globalTree.remove ops seqId
  .ok (returned, { c with
    reqToSeqId := Lru.remove Prod.fst c.reqToSeqId reqId
    seqToReqId
    globalTree
    cacheOrder := if returned then c.cacheOrder.erase reqId else c.cacheOrder })

def evictCachedResponse (c : SuffixDecodingCache N) (reqId : String) :
    Except Stop (Bool × SuffixDecodingCache N) :=
  match c.seqIdOf reqId with
  | none => .ok (false, c)
  | some seqId => c.removeEntry ops reqId seqId

/-- The search loop of `generateSeqId`, with a limit on its rounds: the id and the next one. After
`seqIdCount` rounds without success every id has been tried, and the loop does not end. -/
def searchSeqId (c : SuffixDecodingCache N) : Nat → Nat → Except Stop (Nat × Nat)
  | 0, _ => .error .endless
  | rounds + 1, seqId => do
      let next := (seqId + 1) % seqIdCount
      match ← onMap (c.seqToReqId.find (Int32.ofNat seqId)) with
      | none => .ok (seqId, next)
      | some mappedReq =>
          if c.hasActiveRequest mappedReq then searchSeqId c rounds next else .ok (seqId, next)

/-- The loop of `maybeEvictRequests`. Every round makes the cache smaller, so the size is enough
as a limit on the rounds. -/
def evictLoop (newSeqId : Int32) : Nat → SuffixDecodingCache N →
    Except Stop (Bool × SuffixDecodingCache N)
  | 0, c => .ok (true, c)
  | rounds + 1, c =>
      if c.maxCachedRequests < c.reqToSeqId.length then
        match c.cacheOrder.find? fun reqId => match c.seqIdOf reqId with
            | none => false
            | some seqId => seqId ≠ newSeqId with
        | none => .ok (true, c)
        | some reqId => andThen (c.evictCachedResponse ops reqId) (evictLoop newSeqId rounds)
      else .ok (true, c)

def maybeEvictRequests (c : SuffixDecodingCache N) (newSeqId : Int32) :
    Except Stop (Bool × SuffixDecodingCache N) :=
  if c.maxCachedRequests ≤ 0 then .ok (true, c) else evictLoop ops newSeqId c.reqToSeqId.length c

/-- The request whose response has the id is evicted. -/
def recycle (c : SuffixDecodingCache N) (seqId : Int32) :
    Except Stop (Bool × SuffixDecodingCache N) := do
  match ← onMap (c.seqToReqId.find seqId) with
  | none => .ok (true, c)
  | some oldReqId => c.removeEntry ops oldReqId seqId

/-- The end of `generateSeqId`. -/
def register (c : SuffixDecodingCache N) (reqId : String) (seqId : Int32) :
    Except Stop (Bool × SuffixDecodingCache N) := do
  let (_, seqToReqId) ← onMap (c.seqToReqId.emplace seqId reqId)
  maybeEvictRequests ops { c with
    reqToSeqId := Lru.remove Prod.fst c.reqToSeqId reqId ++ [(reqId, seqId)]
    seqToReqId
    cacheOrder := c.cacheOrder ++ [reqId] } seqId

def generateSeqId (c : SuffixDecodingCache N) (reqId : String) :
    Except Stop (Bool × SuffixDecodingCache N) := do
  let (seqId, next) ← c.searchSeqId seqIdCount c.nextSeqId
  andThen (recycle ops { c with nextSeqId := next } (Int32.ofNat seqId)) fun c =>
    c.register ops reqId (Int32.ofNat seqId)

inductive Outcome
  | done
  | drafted (draft : Draft)
  | threw

/-- The response of an earlier start of the request is evicted. -/
def evictOwn (c : SuffixDecodingCache N) (reqId : String) :
    Except Stop (Bool × SuffixDecodingCache N) :=
  if c.hasCachedRequest reqId then c.evictCachedResponse ops reqId else .ok (true, c)

/-- The end of `startRequest`. -/
def cacheRequest (c : SuffixDecodingCache N) (reqId : String) :
    Except Stop (Bool × SuffixDecodingCache N) :=
  if c.maxCachedRequests = 0 then .ok (true, c)
  else andThen (c.evictOwn ops reqId) fun c => c.generateSeqId ops reqId

def startRequest (c : SuffixDecodingCache N) (reqId : String) (promptTokenIds : List Int32) :
    Except Stop (Outcome × SuffixDecodingCache N) :=
  if c.hasActiveRequest reqId then .ok (.threw, c)
  else do
    let (returned, tree) ←
      SuffixTree.extend ops c.maxTreeDepth { nodes := ops.root } 0 promptTokenIds
    if returned then
      let (returned, c) ← cacheRequest ops
        { c with localTrees := Function.update c.localTrees reqId (some tree) } reqId
      .ok (if returned then .done else .threw, c)
    else .ok (.threw, c)

def stopRequest (c : SuffixDecodingCache N) (reqId : String) : Outcome × SuffixDecodingCache N :=
  if c.hasActiveRequest reqId then
    (.done, { c with localTrees := Function.update c.localTrees reqId none })
  else (.threw, c)

def addActivePrompt (c : SuffixDecodingCache N) (reqId : String) (tokenIds : List Int32) :
    Except Stop (Outcome × SuffixDecodingCache N) :=
  match c.localTrees reqId with
  | none => .ok (.threw, c)
  | some localTree => do
      let (returned, localTree) ← localTree.extend ops c.maxTreeDepth 0 tokenIds
      .ok (if returned then .done else .threw,
        { c with localTrees := Function.update c.localTrees reqId (some localTree) })

def addActiveResponse (c : SuffixDecodingCache N) (reqId : String) (tokenIds : List Int32) :
    Except Stop (Outcome × SuffixDecodingCache N) :=
  match c.localTrees reqId with
  | none => .ok (.threw, c)
  | some localTree => do
      let (returned, localTree) ← localTree.extend ops c.maxTreeDepth 0 tokenIds
      let c := { c with localTrees := Function.update c.localTrees reqId (some localTree) }
      if returned then
        match c.seqIdOf reqId with
        | none => .ok (.done, c)
        | some seqId => do
            let (returned, globalTree) ←
              c.globalTree.extend ops c.maxTreeDepth seqId tokenIds
            .ok (if returned then .done else .threw, { c with globalTree })
      else .ok (.threw, c)

/-- The last `maxTreeDepth` tokens of a context that is longer. A negative depth is converted to
a large unsigned number. -/
def shorten (c : SuffixDecodingCache N) (context : List Int32) : List Int32 :=
  if 0 ≤ c.maxTreeDepth ∧ c.maxTreeDepth < context.length then
    context.drop (context.length - c.maxTreeDepth.toNat)
  else context

def speculate (c : SuffixDecodingCache N) (reqId : String) (query : Query) : Outcome :=
  match c.localTrees reqId with
  | none => .threw
  | some localTree =>
      let maxTokens := query.maxSpecTokens.getD c.maxTreeDepth
      let query := { query with context := c.shorten query.context }
      match ops.speculate localTree.nodes localTree.seqs query maxTokens,
          ops.speculate c.globalTree.nodes c.globalTree.seqs query maxTokens with
      | some draftLocal, some draftGlobal =>
          .drafted (if draftGlobal.score ≤ draftLocal.score then draftLocal else draftGlobal)
      | _, _ => .threw

end SuffixDecodingCache

inductive Op
  | startRequest (reqId : String) (promptTokenIds : List Int32)
  | addActivePrompt (reqId : String) (tokenIds : List Int32)
  | addActiveResponse (reqId : String) (tokenIds : List Int32)
  | stopRequest (reqId : String)
  | evictCachedResponse (reqId : String)
  | speculate (reqId : String) (query : Query)

/-- The cache and the calls on it, the last one first. -/
structure World (N : Type) where
  cache : SuffixDecodingCache N
  calls : List (Op × SuffixDecodingCache.Outcome) := []

def World.start (ops : Nodes N) (maxTreeDepth maxCachedRequests : Int) : World N where
  cache := { maxTreeDepth, maxCachedRequests, globalTree := { nodes := ops.root } }

def SuffixDecodingCache.call (ops : Nodes N) (c : SuffixDecodingCache N) :
    Op → Except Stop (Outcome × SuffixDecodingCache N)
  | .startRequest reqId tokens => c.startRequest ops reqId tokens
  | .addActivePrompt reqId tokens => c.addActivePrompt ops reqId tokens
  | .addActiveResponse reqId tokens => c.addActiveResponse ops reqId tokens
  | .stopRequest reqId => .ok (c.stopRequest reqId)
  | .evictCachedResponse reqId => do
      let (returned, c) ← c.evictCachedResponse ops reqId
      .ok (if returned then .done else .threw, c)
  | .speculate reqId query => .ok (c.speculate ops reqId query, c)

def World.step (ops : Nodes N) (w : World N) (op : Op) : Except Stop (World N) := do
  let (outcome, cache) ← w.cache.call ops op
  .ok { cache, calls := (op, outcome) :: w.calls }

end Xllm.SuffixCache
