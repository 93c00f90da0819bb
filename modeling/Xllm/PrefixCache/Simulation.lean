import Xllm.PrefixCache.Representation

/-!
# The prefix cache in memory and as a list

`LinkedPrefixCache` follows the pointers of the source, `PrefixCache` keeps the LRU list as a
list and compares keys by their bytes. Both number the nodes in the order of `new Node()`, so
the memory of the one can be read as the list of the other (`Represents`). Every call takes
related caches to related caches and gives the same answer or fails the same check; what is
known of the list holds of the code, as long as its functors tell apart the keys that occur.
-/

namespace Xllm

open Contract IntrusiveList List

/-- What a call hands back: the blocks, the keys that were added or evicted, how many tokens or
blocks it counted, and the heap. -/
structure CacheAnswer where
  blocks : List Block := []
  keys : List XXH3Key := []
  count : Nat := 0
  heap : BlockHeap

/-- A run of calls that keeps what they answer. -/
def answered {σ : Type} (call : σ → PrefixCache.CacheOp → Except Check (CacheAnswer × σ))
    (s : List CacheAnswer × σ) (op : PrefixCache.CacheOp) :
    Except Check (List CacheAnswer × σ) := do
  let (answer, t) ← call s.2 op
  .ok (s.1 ++ [answer], t)

section

variable [XXH3]

def PrefixCache.call (d : PrefixCache) :
    PrefixCache.CacheOp → Except Check (CacheAnswer × PrefixCache)
  | .insert heap tokenIds blocks k => do
      let r ← d.insert heap tokenIds blocks k
      .ok (⟨r.blocks, r.insertKeys, r.nTokens, r.heap⟩, r.cache)
  | .insertBlocks heap blocks =>
      let r := d.insertBlocks heap blocks
      .ok (⟨r.blocks, r.insertKeys, r.nTokens, r.heap⟩, r.cache)
  | .matchTokens heap tokenIds existed => do
      let (blocks, cache, heap) ← d.matchTokens heap tokenIds existed
      .ok (⟨blocks, [], 0, heap⟩, cache)
  | .evict heap n => do
      let r ← d.evict heap n
      .ok (⟨[], r.evictKeys, r.evictCount, r.heap⟩, r.cache)

def LinkedPrefixCache.call (hash : List UInt8 → UInt64) (c : LinkedPrefixCache) :
    PrefixCache.CacheOp → Except Check (CacheAnswer × LinkedPrefixCache)
  | .insert heap tokenIds blocks k => do
      let r ← c.insert hash heap tokenIds blocks k
      .ok (⟨r.blocks, r.insertKeys, r.nTokens, r.heap⟩, r.cache)
  | .insertBlocks heap blocks => do
      let r ← c.insertBlocks hash heap blocks
      .ok (⟨r.blocks, r.insertKeys, r.nTokens, r.heap⟩, r.cache)
  | .matchTokens heap tokenIds existed => do
      let (blocks, cache, heap) ← c.matchTokens hash heap tokenIds existed
      .ok (⟨blocks, [], 0, heap⟩, cache)
  | .evict heap n => do
      let r ← c.evict hash heap n
      .ok (⟨[], r.evictKeys, r.evictCount, r.heap⟩, r.cache)

/-- The keys that a call looks up or stores. -/
def PrefixCache.CacheOp.keys (blockSize : Nat) : PrefixCache.CacheOp → List XXH3Key
  | .insert _ tokenIds blocks k =>
      chainKeys (if k = 0 then none else blocks[k - 1]?.map Block.hashValue)
        ((((tokenBlocks blockSize tokenIds).zip blocks).drop k).map Prod.fst)
  | .insertBlocks _ blocks => (blocks.filter (·.isValid)).map Block.hashValue
  | .matchTokens _ tokenIds existed =>
      chainKeys (existed.getLast?.map Block.hashValue)
        ((tokenBlocks blockSize tokenIds).drop existed.length)
  | .evict _ _ => []

end

namespace LinkedPrefixCache

/-- No two of the keys are one key to the functors of the map. -/
def KeysApart (hash : List UInt8 → UInt64) (K : List XXH3Key) : Prop :=
  ∀ a ∈ K, ∀ b ∈ K, sameKey hash a b → a = b

/-- The two caches agree in all that is not a pointer, and their keys are among `K`. -/
structure Mirrors (K : List XXH3Key) (n : Nat) (c : LinkedPrefixCache) (d : PrefixCache) :
    Prop where
  blockSize_eq : c.blockSize = n
  listSize_eq : d.blockSize = n
  numBlocks_eq : c.numBlocks = d.numBlocks
  nextNode_eq : c.nextNode = d.nextNode
  index_eq : c.cachedBlocks = d.cachedBlocks.map fun e => (e.1, Addr.node e.2)
  keys_mem : ∀ e ∈ d.cachedBlocks, e.1 ∈ K

/-- The memory holds the list and the nodes of `d`. -/
structure Represents (hash : List UInt8 → UInt64) (K : List XXH3Key) (n : Nat)
    (c : LinkedPrefixCache) (d : PrefixCache) : Prop where
  mirrors : Mirrors K n c d
  consistent : Consistent hash c (d.lruLst.map .node)
  value_eq : ∀ p ∈ d.lruLst, c.memory.value (.node p) = some (d.node p)

/-- The memory holds both lists of a running call. -/
structure Shadows (hash : List UInt8 → UInt64) (K : List XXH3Key) (n : Nat) (w : Pass)
    (v : PrefixCache.Pass) : Prop where
  mirrors : Mirrors K n w.cache v.cache
  passing : Passing hash w.cache (v.cache.lruLst.map .node) (v.nodeList.map .node)
  value_eq : ∀ p ∈ v.cache.lruLst ++ v.nodeList,
    w.cache.memory.value (.node p) = some (v.cache.node p)
  heap_eq : w.heap = v.heap
  insertKeys_eq : w.insertKeys = v.insertKeys

variable {hash : List UInt8 → UInt64} {K : List XXH3Key} {c : LinkedPrefixCache} {d : PrefixCache}
variable {w : Pass} {v : PrefixCache.Pass} {key : XXH3Key} {n p : Nat}

theorem Mirrors.relink {m : Memory Addr Block} {lst : List Nat} (h : Mirrors K n c d) :
    Mirrors K n { c with memory := m } { d with lruLst := lst } :=
  ⟨h.blockSize_eq, h.listSize_eq, h.numBlocks_eq, h.nextNode_eq, h.index_eq, h.keys_mem⟩

theorem Mirrors.find_eq (h : Mirrors K n c d) (hapart : KeysApart hash K) (hkey : key ∈ K) :
    (unorderedFind hash c.cachedBlocks key).map Prod.snd = (d.find key).map .node := by
  have hsame : ∀ e ∈ c.cachedBlocks, SameString e.1 key →
      fixedStringKeyHash hash e.1 = fixedStringKeyHash hash key → e.1 = key := by
    intro e he hstring hhash
    rw [h.index_eq] at he
    obtain ⟨e', he', rfl⟩ := List.mem_map.mp he
    exact hapart _ (h.keys_mem e' he') _ hkey (sameKey_iff.mpr ⟨hhash, hstring⟩)
  rw [unorderedFind_eq hsame, h.index_eq, find?_map, Option.map_map, PrefixCache.find,
    Option.map_map]
  rfl

theorem Mirrors.erase_eq (h : Mirrors K n c d) (hapart : KeysApart hash K) (hkey : key ∈ K) :
    unorderedErase hash c.cachedBlocks key =
      (d.cachedBlocks.filter (·.1 ≠ key)).map fun e => (e.1, Addr.node e.2) := by
  rw [h.index_eq, unorderedErase, filter_map]
  refine congrArg _ (filter_congr fun e he => ?_)
  have hmem := h.keys_mem e he
  by_cases heq : e.1 = key
  · simp [heq, sameKey_refl]
  · have hne : ¬sameKey hash e.1 key := fun hsame => heq (hapart _ hmem _ hkey hsame)
    simp [heq, hne]

theorem map_filter_ne (l : List Nat) (p : Nat) :
    (l.map Addr.node).filter (· ≠ .node p) = (l.filter (· ≠ p)).map .node := by
  rw [filter_map]
  exact congrArg _ (filter_congr fun q _ => by simp)

theorem Shadows.touch (h : Shadows hash K n w v) (hp : p ∈ v.cache.lruLst ++ v.nodeList) :
    ∃ w', w.touch (.node p) = .ok w' ∧ Shadows hash K n w' (v.touch p) := by
  have ha : Addr.node p ∈ v.cache.lruLst.map Addr.node ++ v.nodeList.map .node := by
    rw [← map_append]
    exact mem_map_of_mem hp
  obtain ⟨m, htouch, hm, hpassing⟩ := Pass.touch_eq h.passing ha
  rw [map_filter_ne, map_filter_ne] at hpassing
  refine ⟨_, htouch, h.mirrors.relink, hpassing, fun q hq => ?_, h.heap_eq, h.insertKeys_eq⟩
  refine (congrFun hm _).trans (h.value_eq q ?_)
  simp only [PrefixCache.Pass.touch, mem_append, mem_cons, mem_filter] at hq ⊢ hp
  rcases hq with hq | rfl | hq
  · exact .inl hq.1
  · exact hp
  · exact .inr hq.1

theorem Shadows.create {block : Block} (h : Shadows hash K n w v) (hkey : key ∈ K)
    (hnone : unorderedFind hash w.cache.cachedBlocks key = none) (hblock : block.hashValue = key)
    (hfind : v.cache.find key = none) :
    ∃ w', w.create hash key block = .ok w' ∧ Shadows hash K n w' (v.store key block) := by
  obtain ⟨w', hcreate, hvalue, hpassing⟩ := Pass.create_eq h.passing hnone hblock
  obtain ⟨m, hm, hw'⟩ := bind_eq_ok hcreate
  obtain rfl := Except.ok.inj hw'
  have hnext := h.mirrors.nextNode_eq
  refine ⟨_, hcreate, ?_⟩
  rw [PrefixCache.Pass.store, hfind]
  refine ⟨⟨h.mirrors.blockSize_eq, h.mirrors.listSize_eq, ?_, ?_, ?_, ?_⟩, ?_, ?_, ?_, ?_⟩
  · exact congrArg (· + 1) h.mirrors.numBlocks_eq
  · exact congrArg (· + 1) hnext
  · dsimp only
    rw [unorderedEmplace, hnone, hnext, h.mirrors.index_eq]
    rfl
  · intro e he
    rcases List.mem_cons.mp he with rfl | he
    · exact hkey
    · exact h.mirrors.keys_mem e he
  · have hcons : Addr.node w.cache.nextNode :: v.nodeList.map .node =
        (v.cache.nextNode :: v.nodeList).map .node := by rw [hnext, map_cons]
    rw [hcons] at hpassing
    exact hpassing
  · intro q hq
    refine (congrFun hvalue _).trans ?_
    by_cases hnew : q = v.cache.nextNode
    · simp [Memory.alloc, Memory.value, hnext, hnew]
    · have hold : q ∈ v.cache.lruLst ++ v.nodeList := by
        simpa [hnew] using hq
      have := h.value_eq q hold
      simpa [Memory.alloc, Memory.value, hnext, hnew] using this
  · exact congrArg (·.incRefCount block) h.heap_eq
  · exact congrArg (· ++ [key]) h.insertKeys_eq

theorem Shadows.find_cases (h : Shadows hash K n w v) (hapart : KeysApart hash K) (hkey : key ∈ K) :
    (unorderedFind hash w.cache.cachedBlocks key = none ∧ v.cache.find key = none) ∨
      ∃ e p, unorderedFind hash w.cache.cachedBlocks key = some e ∧ v.cache.find key = some p ∧
        e.2 = .node p ∧ p ∈ v.cache.lruLst ++ v.nodeList := by
  have heq := h.mirrors.find_eq hapart hkey
  cases hfind : unorderedFind hash w.cache.cachedBlocks key with
  | none =>
      rw [hfind] at heq
      exact .inl ⟨rfl, Option.map_eq_none_iff.mp heq.symm⟩
  | some e =>
      rw [hfind] at heq
      obtain ⟨p, hp, hnode⟩ := Option.map_eq_some_iff.mp heq.symm
      refine .inr ⟨e, p, rfl, hp, hnode.symm, ?_⟩
      have hmem := h.passing.indexed.mem_of_find hfind
      rw [← hnode, ← map_append, mem_map_of_injective fun _ _ => Addr.node.inj] at hmem
      exact hmem

theorem Shadows.store {block : Block} (h : Shadows hash K n w v) (hapart : KeysApart hash K)
    (hkey : key ∈ K) (hblock : block.hashValue = key) :
    ∃ w', w.store hash key block = .ok w' ∧ Shadows hash K n w' (v.store key block) := by
  rw [Pass.store]
  rcases h.find_cases hapart hkey with ⟨hnone, hfind⟩ | ⟨e, p, hsome, hfind, hnode, hmem⟩
  · rw [hnone]
    exact h.create hkey hnone hblock hfind
  · rw [hsome, PrefixCache.Pass.store, hfind]
    dsimp only
    rw [hnode]
    exact h.touch hmem

theorem Represents.openList (h : Represents hash K n c d) (s : BlockHeap) :
    Shadows hash K n { cache := c.openList, heap := s } { cache := d, heap := s } := by
  refine ⟨h.mirrors.relink, h.consistent.openList, fun p hp => ?_, rfl, rfl⟩
  rw [append_nil] at hp
  refine Eq.trans ?_ (h.value_eq p hp)
  simp [LinkedPrefixCache.openList, Memory.init, Memory.value]

theorem Shadows.finish (h : Shadows hash K n w v) :
    ∃ c, w.finish = .ok { w with cache := c } ∧ Represents hash K n c v.finish := by
  obtain ⟨m, hfinish, hvalue, hconsistent⟩ := Pass.finish_eq h.passing
  rw [← map_append] at hvalue hconsistent
  refine ⟨_, hfinish, h.mirrors.relink, hconsistent, fun p hp => ?_⟩
  exact (hvalue _ (mem_map_of_mem hp)).trans (h.value_eq p hp)

section

theorem Shadows.insertBlocksLoop (hapart : KeysApart hash K) (h : Shadows hash K n w v)
    (blocks : List Block) (hkeys : ∀ b ∈ blocks, b.isValid → b.hashValue ∈ K) :
    ∃ w', insertBlocksLoop hash blocks w = .ok w' ∧
      Shadows hash K n w' (PrefixCache.insertBlocksLoop blocks v) := by
  induction blocks generalizing w v with
  | nil => exact ⟨w, rfl, h⟩
  | cons block rest ih =>
      rw [LinkedPrefixCache.insertBlocksLoop, PrefixCache.insertBlocksLoop]
      rw [forall_mem_cons] at hkeys
      by_cases hvalid : block.isValid = true
      · obtain ⟨w', hstore, hw'⟩ := h.store hapart (hkeys.1 hvalid) rfl
        rw [if_pos hvalid, if_pos hvalid, hstore]
        exact ih hw' hkeys.2
      · rw [if_neg hvalid, if_neg hvalid]
        exact ih h hkeys.2

variable [XXH3]

theorem hash_agree (preHash : Option XXH3Key) (tokens : List Token) :
    Agree (fun a b => a = b ∧ b = hashKey preHash tokens) (xxh3128bitsHash preHash tokens)
      (xxh3128bitsHash preHash tokens) :=
  (PrefixCache.xxh3128bitsHash_ensures preHash tokens).agree

theorem Shadows.matchLoop (hapart : KeysApart hash K) (h : Shadows hash K n w v)
    (todo : List (List Token)) (preHash : Option XXH3Key) (blocks : List Block)
    (hkeys : ∀ key ∈ chainKeys preHash todo, key ∈ K) :
    Agree (fun r t => r.1 = t.1 ∧ Shadows hash K n r.2 t.2) (matchLoop hash todo preHash blocks w)
      (PrefixCache.matchLoop todo preHash blocks v) := by
  induction todo generalizing preHash blocks w v with
  | nil => exact ⟨rfl, h⟩
  | cons tokens rest ih =>
      refine (hash_agree preHash tokens).bind fun key' key hkey => ?_
      obtain ⟨rfl, rfl⟩ := hkey
      rw [chainKeys_cons, forall_mem_cons] at hkeys
      rcases h.find_cases hapart hkeys.1 with ⟨hnone, hfind⟩ | ⟨e, p, hsome, hfind, hnode, hmem⟩
      · rw [hnone, hfind]
        exact ⟨rfl, h⟩
      · obtain ⟨w', htouch, hw'⟩ := h.touch hmem
        rw [hsome, hfind]
        simp only [hnode, h.value_eq p hmem, htouch]
        have hheap : w'.heap = v.heap := hw'.heap_eq
        have hnext : Shadows hash K n
            { w' with heap := w'.heap.incRefCount (v.cache.node p) }
            { v.touch p with heap := v.heap.incRefCount (v.cache.node p) } :=
          ⟨hw'.mirrors, hw'.passing, hw'.value_eq, by rw [hheap], hw'.insertKeys_eq⟩
        exact ih hnext _ _ hkeys.2

theorem Shadows.insertLoop (hapart : KeysApart hash K) (h : Shadows hash K n w v) (blockSize : Nat)
    (tokenIds : List Token) (todo : List (List Token × Block)) (blockIdx : Nat)
    (preHash : Option XXH3Key) (hkeys : ∀ key ∈ chainKeys preHash (todo.map Prod.fst), key ∈ K) :
    Agree (fun r t => r.1 = t.1 ∧ Shadows hash K n r.2 t.2)
      (insertLoop hash blockSize tokenIds todo blockIdx preHash w)
      (PrefixCache.insertLoop blockSize tokenIds todo blockIdx preHash v) := by
  induction todo generalizing blockIdx preHash w v with
  | nil => exact ⟨rfl, h⟩
  | cons e rest ih =>
      obtain ⟨tokens, block⟩ := e
      refine (hash_agree preHash tokens).bind fun key' key hkey => ?_
      obtain ⟨rfl, rfl⟩ := hkey
      rw [map_cons, chainKeys_cons, forall_mem_cons] at hkeys
      obtain ⟨w', hstore, hw'⟩ :=
        h.store hapart hkeys.1 (Block.setHashValue_hashValue block _ (tokenIds.take _))
      dsimp only
      rw [hstore]
      refine (ih hw' (blockIdx + 1) _ hkeys.2).bind fun r t hrt => ?_
      exact ⟨congrArg _ hrt.1, hrt.2⟩

end

theorem Represents.key_mem (h : Represents hash K n c d) (hp : p ∈ d.lruLst) :
    (d.node p).hashValue ∈ K := by
  have hnode : Addr.node p ∈ c.cachedBlocks.map Prod.snd :=
    h.consistent.indexed.index.mem_iff.mpr (mem_map_of_mem hp)
  obtain ⟨e, he, hep⟩ := List.mem_map.mp hnode
  have hkeyed := h.consistent.indexed.keyed e he
  rw [hep, h.value_eq p hp, Option.map_some, Option.some_inj] at hkeyed
  rw [h.mirrors.index_eq] at he
  obtain ⟨e', he', rfl⟩ := List.mem_map.mp he
  rw [hkeyed]
  exact h.mirrors.keys_mem e' he'

/-- What an eviction has done so far. -/
structure Evicts (hash : List UInt8 → UInt64) (K : List XXH3Key) (n : Nat) (r : Evicted)
    (t : PrefixCache.Evicted) : Prop where
  represents : Represents hash K n r.cache t.cache
  evictCount_eq : r.evictCount = t.evictCount
  evictKeys_eq : r.evictKeys = t.evictKeys
  heap_eq : r.heap = t.heap

theorem Evicts.node {r : Evicted} {t : PrefixCache.Evicted} (hapart : KeysApart hash K)
    (h : Evicts hash K n r t) {done rest : List Nat} (hlist : t.cache.lruLst = done ++ p :: rest) :
    Agree (fun x heap => x.1 = (rest.map Addr.node).headD .lruBack ∧
        Evicts hash K n x.2 (t.drop p heap) ∧ (t.drop p heap).cache.lruLst = done ++ rest)
      (evictNode hash r (.node p) (t.cache.node p)) (t.heap.decRefCount (t.cache.node p)) := by
  have hp : p ∈ t.cache.lruLst := by simp [hlist]
  have hconsistent := h.represents.consistent
  have hnodup : (done ++ p :: rest).Nodup := by
    rw [← hlist]
    exact h.represents.consistent.indexed.nodup.of_map _
  have hdrop : ∀ heap, (t.drop p heap).cache.lruLst = done ++ rest := by
    intro heap
    rw [PrefixCache.Evicted.drop, PrefixCache.unlink, hlist]
    exact filter_ne_middle hnodup
  rw [hlist, map_append] at hconsistent
  have hblock := h.represents.value_eq p hp
  have hensures := evictNode_ensures hconsistent hblock
  obtain ⟨m, hremove, -, hrelinked⟩ := hconsistent.linked.removeNode
  have hnode : evictNode hash r (.node p) (t.cache.node p) =
      t.heap.decRefCount (t.cache.node p) >>= fun heap => .ok
        ((rest.map Addr.node).headD .lruBack,
          { evictCount := r.evictCount + 1
            evictKeys := r.evictKeys ++ [(t.cache.node p).hashValue]
            cache := { r.cache with
              memory := m.free (.node p)
              cachedBlocks := unorderedErase hash r.cache.cachedBlocks (t.cache.node p).hashValue
              numBlocks := r.cache.numBlocks - 1 }
            heap := heap }) := by
    rw [evictNode, hremove, deref_some, ok_bind]
    dsimp only
    rw [deleteNode, hrelinked.value, hblock, deref_some, ok_bind, bind_assoc, h.heap_eq]
    rfl
  rw [hnode] at hensures ⊢
  cases hdec : t.heap.decRefCount (t.cache.node p) with
  | error e => exact rfl
  | ok heap =>
      rw [hdec] at hensures
      obtain ⟨-, hvalue, hleft⟩ := hensures
      have hmirrors := h.represents.mirrors
      refine ⟨rfl,
        ⟨⟨⟨hmirrors.blockSize_eq, hmirrors.listSize_eq, ?_, hmirrors.nextNode_eq, ?_, ?_⟩,
          ?_, ?_⟩, ?_, ?_, rfl⟩,
        hdrop heap⟩
      · exact congrArg (· - 1) hmirrors.numBlocks_eq
      · exact hmirrors.erase_eq hapart (h.represents.key_mem hp)
      · exact fun e he => hmirrors.keys_mem e (mem_of_mem_filter he)
      · rw [hdrop, map_append]
        exact hleft
      · intro q hq
        rw [hdrop] at hq
        have hold : q ∈ t.cache.lruLst := by
          rw [hlist]
          exact (List.Sublist.append_left (sublist_cons_self p rest) done).subset hq
        refine (hvalue _ ?_).trans (h.represents.value_eq q hold)
        rw [← map_append]
        exact mem_map_of_mem hq
      · exact congrArg (· + 1) h.evictCount_eq
      · exact congrArg (· ++ [_]) h.evictKeys_eq

theorem Evicts.loop {r : Evicted} {t : PrefixCache.Evicted} (hapart : KeysApart hash K)
    (h : Evicts hash K n r t) {nBlocks rounds : Nat} {done rest : List Nat}
    (hlist : t.cache.lruLst = done ++ rest) (hrounds : rest.length ≤ rounds) :
    Agree (Evicts hash K n)
      (evictLoop hash nBlocks rounds ((rest.map Addr.node).headD .lruBack) r)
      (PrefixCache.evictLoop nBlocks rest t) := by
  induction rest generalizing done r t rounds with
  | nil => cases rounds <;> simpa [evictLoop, PrefixCache.evictLoop, Agree] using h
  | cons p rest ih =>
      obtain ⟨rounds, rfl⟩ : ∃ n, rounds = n + 1 := ⟨rounds - 1, by simp at hrounds; omega⟩
      have hrest : rest.length ≤ rounds := by simpa using hrounds
      have hp : p ∈ t.cache.lruLst := by simp [hlist]
      have hblock := h.represents.value_eq p hp
      have hconsistent := h.represents.consistent
      rw [hlist, map_append] at hconsistent
      rw [map_cons, headD_cons, evictLoop, PrefixCache.evictLoop, h.evictCount_eq,
        h.heap_eq]
      by_cases hgoes : t.evictCount < nBlocks
      · rw [if_pos ⟨hgoes, by simp⟩, if_pos hgoes]
        simp only [hblock, deref_some, ok_bind]
        by_cases hshared : t.heap.isShared (t.cache.node p) = true
        · rw [if_pos hshared, if_pos hshared, hconsistent.linked.next_node]
          exact ih h (hlist.trans (append_cons _ _ _)) hrest
        · rw [if_neg hshared, if_neg hshared]
          refine (h.node hapart hlist).bind ?_
          rintro ⟨next, r'⟩ heap ⟨rfl, hevicts, hleft⟩
          exact ih hevicts hleft hrest
      · rw [if_neg fun hboth => hgoes hboth.1, if_neg hgoes]
        exact h

variable [XXH3]

theorem Represents.call (hapart : KeysApart hash K) (h : Represents hash K n c d)
    (op : PrefixCache.CacheOp) (hkeys : ∀ key ∈ op.keys n, key ∈ K) :
    Agree (fun x y => x.1 = y.1 ∧ Represents hash K n x.2 y.2)
      (c.call hash op) (d.call op) := by
  have hsize := h.mirrors.blockSize_eq
  have hlistSize := h.mirrors.listSize_eq
  cases op with
  | insert heap tokenIds blocks k =>
      rw [LinkedPrefixCache.call, PrefixCache.call, LinkedPrefixCache.insert, PrefixCache.insert,
        hsize, hlistSize]
      split
      · exact ⟨rfl, h⟩
      · split
        · exact rfl
        · simp only [bind_assoc]
          refine ((h.openList heap).insertLoop hapart _ tokenIds _ k _ hkeys).bind ?_
          rintro ⟨stamped, w⟩ ⟨stamped', v⟩ ⟨rfl, hw⟩
          obtain ⟨c', hfinish, hc'⟩ := hw.finish
          simp only [hfinish]
          exact ⟨by rw [hw.insertKeys_eq, hw.heap_eq], hc'⟩
  | insertBlocks heap blocks =>
      obtain ⟨w, hloop, hw⟩ := (h.openList heap).insertBlocksLoop hapart blocks fun b hb hvalid =>
        hkeys _ (mem_map_of_mem (List.mem_filter.mpr ⟨hb, hvalid⟩))
      obtain ⟨c', hfinish, hc'⟩ := hw.finish
      rw [LinkedPrefixCache.call, PrefixCache.call, LinkedPrefixCache.insertBlocks, hloop, ok_bind,
        hfinish, PrefixCache.insertBlocks, hsize, hlistSize]
      exact ⟨by rw [hw.insertKeys_eq, hw.heap_eq], hc'⟩
  | matchTokens heap tokenIds existed =>
      rw [LinkedPrefixCache.call, PrefixCache.call, LinkedPrefixCache.matchTokens,
        PrefixCache.matchTokens, hsize, hlistSize]
      split
      · exact ⟨rfl, h⟩
      · simp only [bind_assoc]
        refine ((h.openList _).matchLoop hapart _ _ existed hkeys).bind ?_
        rintro ⟨blocks, w⟩ ⟨blocks', v⟩ ⟨rfl, hw⟩
        obtain ⟨c', hfinish, hc'⟩ := hw.finish
        simp only [hfinish]
        exact ⟨by rw [hw.heap_eq], hc'⟩
  | evict heap m =>
      have hempty : (d.lruLst.map Addr.node).isEmpty = true ↔ d.lruLst = [] := by simp
      have hrounds : d.lruLst.length ≤ c.cachedBlocks.length := by
        rw [h.consistent.indexed.length_eq, length_map]
      rw [LinkedPrefixCache.call, PrefixCache.call, LinkedPrefixCache.evict, PrefixCache.evict,
        h.consistent.linked.isEmpty, deref_some, ok_bind]
      simp only [hempty, h.mirrors.numBlocks_eq]
      split
      · exact ⟨rfl, h⟩
      · rw [h.consistent.linked.next_front]
        have hstart : Evicts hash K n { cache := c, heap := heap } { cache := d, heap := heap } :=
          ⟨h, rfl, rfl, rfl⟩
        refine (hstart.loop hapart (nil_append _).symm hrounds).bind fun r t hr => ?_
        exact ⟨by rw [hr.evictKeys_eq, hr.evictCount_eq, hr.heap_eq], hr.represents⟩

/-- Without a collision among the keys of a run, the linked nodes and the map with its own
functors answer every call as the list of blocks does. -/
theorem run_answers_agree (hash : List UInt8 → UInt64) (blockSize : Nat)
    (ops : List PrefixCache.CacheOp) (hapart : KeysApart hash (ops.flatMap (·.keys blockSize))) :
    Agree (fun x y => x.1 = y.1 ∧
        Represents hash (ops.flatMap (·.keys blockSize)) blockSize x.2 y.2)
      (run (answered (call hash)) ([], { blockSize := blockSize }) ops)
      (run (answered PrefixCache.call) ([], { blockSize := blockSize }) ops) := by
  refine Agree.run ?_ ?_
  · rintro ⟨answers, c⟩ ⟨answers', d⟩ op hop ⟨rfl, h⟩
    have hkeys : ∀ key ∈ op.keys blockSize, key ∈ ops.flatMap (·.keys blockSize) :=
      fun key hkey => List.mem_flatMap.mpr ⟨op, hop, hkey⟩
    refine (h.call hapart op hkeys).bind ?_
    rintro ⟨answer, c'⟩ ⟨answer', d'⟩ ⟨rfl, h'⟩
    exact ⟨rfl, h'⟩
  · exact ⟨rfl, ⟨rfl, rfl, rfl, rfl, rfl, forall_mem_nil _⟩, consistent_empty blockSize,
      forall_mem_nil _⟩

omit [XXH3] in
/-- The deeper one of two blocks is evicted, and the other one is matched. The keys begin with
a zero byte, so that only their hash values tell them apart. -/
theorem run_answers_agree_evicted :
    let _ : XXH3 := XXH3.lastBytes
    let hash : List UInt8 → UInt64 := fun bytes => bytes.foldl (fun h b => 31 * h + b.toUInt64) 0
    let heap : BlockHeap := ⟨fun _ => 1, 2, [0, 0, 0], 0⟩
    let blocks : List Block := [{ id := 1, refCount := some 0 }, { id := 2, refCount := some 1 }]
    let ops : List PrefixCache.CacheOp :=
      [.insert heap [7, 8] blocks 0, .evict heap 1, .matchTokens heap [7, 8] []]
    (run (answered PrefixCache.call) ([], { blockSize := 1 }) ops).map
        (fun r => r.1.map fun answer => answer.blocks.map Block.id) = .ok [[1, 2], [], [1]] ∧
      Agree (fun x y => x.1 = y.1 ∧ Represents hash (ops.flatMap (·.keys 1)) 1 x.2 y.2)
        (run (answered (call hash)) ([], { blockSize := 1 }) ops)
        (run (answered PrefixCache.call) ([], { blockSize := 1 }) ops) := by
  intro _ hash heap blocks ops
  refine ⟨by decide +kernel, run_answers_agree hash 1 ops ?_⟩
  have hall : ∀ a ∈ ops.flatMap (·.keys 1), ∀ b ∈ ops.flatMap (·.keys 1),
      sameKey hash a b = true → a = b := by decide +kernel
  exact hall

end LinkedPrefixCache

end Xllm
