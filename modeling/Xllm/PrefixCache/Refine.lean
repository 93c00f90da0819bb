import Xllm.Block.Owned
import Xllm.Lib.Lru
import Xllm.PrefixCache.Basic

/-!
# The prefix cache as a recency list

`PrefixCache` keeps a map, a linked list and the nodes both refer to. While they
agree (`Wf`), the cache is one list of blocks in access order, `entries`, in
which every hash value occurs once, and each member of the cache acts on that
list as a pass of `Lru`:

* `match` follows the chained keys until one is absent;
* both `insert`s stamp their blocks and store them;
* `evict` removes unshared entries, oldest first.

Each member has one specification here; later modules use only these.
-/

namespace Xllm

open Contract List Function

namespace PrefixCache

/-- The cached blocks, least recently used first. -/
def entries (c : PrefixCache) : List Block := c.lruLst.map c.node

abbrev holds (c : PrefixCache) (key : XXH3Key) : Option Block :=
  Lru.lookup Block.hashValue c.entries key

/-- The map and the linked list hold the same nodes, each under the hash value
of its block, and no two nodes share a hash value. -/
structure Wf (c : PrefixCache) : Prop where
  keyed : Lru.Keyed Block.hashValue c.entries
  index : c.cachedBlocks.Perm (c.lruLst.map fun p => ((c.node p).hashValue, p))
  node_lt : ∀ p ∈ c.lruLst, p < c.nextNode
  numBlocks_eq : c.numBlocks = c.cachedBlocks.length

variable {c c' : PrefixCache} {p q : Nat} {key : XXH3Key}

theorem wf_empty (blockSize : Nat) : Wf { blockSize := blockSize } :=
  ⟨nodup_nil, .refl _, by simp, rfl⟩

theorem Wf.hash_eq_iff (h : c.Wf) (hp : p ∈ c.lruLst) (hq : q ∈ c.lruLst) :
    (c.node p).hashValue = (c.node q).hashValue ↔ p = q := by
  constructor
  · have hnodup : (c.lruLst.map fun p => (c.node p).hashValue).Nodup := by
      simpa [Lru.Keyed, entries, comp_def] using h.keyed
    exact fun he => inj_on_of_nodup_map hnodup hp hq he
  · rintro rfl
    rfl

theorem Wf.nodup (h : c.Wf) : c.lruLst.Nodup := List.Nodup.of_map c.node h.keyed.nodup

theorem Wf.mem_index (h : c.Wf) :
    (key, p) ∈ c.cachedBlocks ↔ p ∈ c.lruLst ∧ (c.node p).hashValue = key := by
  rw [h.index.mem_iff, mem_map]
  constructor
  · rintro ⟨q, hq, he⟩
    obtain ⟨hkey, rfl⟩ := Prod.mk.injEq .. ▸ he
    exact ⟨hq, hkey⟩
  · rintro ⟨hp, hkey⟩
    exact ⟨p, hp, by rw [hkey]⟩

theorem Wf.find_some (h : c.Wf) (hf : c.find key = some p) :
    p ∈ c.lruLst ∧ (c.node p).hashValue = key := by
  obtain ⟨⟨k, q⟩, he, hq⟩ := Option.map_eq_some_iff.mp hf
  have hkey : k = key := by simpa using find?_some he
  have hmem := mem_of_find?_eq_some he
  simp only at hq
  rw [hq, hkey] at hmem
  exact h.mem_index.mp hmem

theorem Wf.holds_of_find (h : c.Wf) (hf : c.find key = some p) :
    c.holds key = some (c.node p) := by
  obtain ⟨hp, hkey⟩ := h.find_some hf
  exact (Lru.lookup_eq_some_iff h.keyed).mpr ⟨mem_map_of_mem hp, hkey⟩

theorem Wf.holds_eq_none (h : c.Wf) (hf : c.find key = none) : c.holds key = none := by
  rw [Lru.lookup_eq_none_iff]
  intro b hb hkey
  obtain ⟨p, hp, rfl⟩ := List.mem_map.mp hb
  have hmem : (key, p) ∈ c.cachedBlocks := h.mem_index.mpr ⟨hp, hkey⟩
  have hnone : ∀ e ∈ c.cachedBlocks, e.1 ≠ key := by simpa [find] using hf
  exact hnone _ hmem rfl

theorem Wf.relink {lst : List Nat} (h : c.Wf) (hperm : lst.Perm c.lruLst) :
    Wf { c with lruLst := lst } where
  keyed := h.keyed.perm (hperm.symm.map c.node)
  index := h.index.trans (hperm.symm.map _)
  node_lt p hp := h.node_lt p (hperm.mem_iff.mp hp)
  numBlocks_eq := h.numBlocks_eq

theorem map_filter_node {lst : List Nat}
    (h : ∀ q ∈ lst, (c.node q).hashValue = (c.node p).hashValue ↔ q = p) :
    (lst.filter (· ≠ p)).map c.node =
      Lru.remove Block.hashValue (lst.map c.node) (c.node p).hashValue := by
  rw [Lru.remove, filter_map]
  congr 1
  apply filter_congr
  intro q hq
  simp [h q hq]

@[simp] theorem all_start (l : List Block) : (⟨l, []⟩ : Lru.Walk Block).all = l := append_nil l

namespace Pass

variable {w : Pass} {block : Block}

/-- The two lists of a running pass, as lists of blocks. -/
def abs (w : Pass) : Lru.Walk Block :=
  ⟨w.cache.lruLst.map w.cache.node, w.nodeList.map w.cache.node⟩

@[simp] theorem abs_all (w : Pass) : w.abs.all = w.finish.entries := by
  simp [abs, Lru.Walk.all, finish, entries]

theorem abs_touch (h : w.finish.Wf) (hp : p ∈ w.finish.lruLst) :
    (w.touch p).abs = w.abs.touch Block.hashValue (w.cache.node p) := by
  have hiff : ∀ q ∈ w.finish.lruLst,
      (w.cache.node q).hashValue = (w.cache.node p).hashValue ↔ q = p :=
    fun q hq => h.hash_eq_iff hq hp
  have hold := map_filter_node (c := w.cache) fun q hq => hiff q (mem_append_left _ hq)
  have hnew := map_filter_node (c := w.cache) fun q hq => hiff q (mem_append_right _ hq)
  simp only [abs, touch, Lru.Walk.touch, map_cons, hold, hnew]

theorem touch_wf (h : w.finish.Wf) (hp : p ∈ w.finish.lruLst) : (w.touch p).finish.Wf := by
  refine h.relink (c := w.finish) ?_
  have hmove : (w.cache.lruLst.filter (· ≠ p) ++ p :: w.nodeList.filter (· ≠ p)).Perm
      (p :: w.finish.lruLst.filter (· ≠ p)) := by
    simp only [finish, filter_append]
    exact perm_middle
  have herase : w.finish.lruLst.filter (· ≠ p) = w.finish.lruLst.erase p := by
    rw [h.nodup.erase_eq_filter]
    exact filter_congr fun q _ => by simp [bne, Bool.beq_eq_decide_eq]
  rw [herase] at hmove
  exact hmove.trans (perm_cons_erase hp).symm

theorem abs_store_new (h : w.finish.Wf) (hf : w.cache.find key = none) :
    (w.store key block).abs = w.abs.push block := by
  have hold : ∀ q ∈ w.finish.lruLst, q ≠ w.cache.nextNode := fun q hq => (h.node_lt q hq).ne
  have hsame : ∀ lst : List Nat, (∀ q ∈ lst, q ∈ w.finish.lruLst) →
      lst.map (update w.cache.node w.cache.nextNode block) = lst.map w.cache.node :=
    fun lst hlst => map_congr_left fun q hq =>
      update_of_ne (hold q (hlst q hq)) _ _
  simp only [store, hf, abs, Lru.Walk.push, map_cons, update_self,
    hsame _ fun q hq => mem_append_left _ hq,
    hsame _ fun q hq => mem_append_right _ hq]

theorem store_new_wf (h : w.finish.Wf) (hf : w.cache.find key = none)
    (hkey : block.hashValue = key) : (w.store key block).finish.Wf := by
  have hnone : Lru.lookup Block.hashValue w.abs.all block.hashValue = none := by
    rw [abs_all, hkey]
    exact h.holds_eq_none hf
  have hkeyed : Lru.Keyed Block.hashValue (w.store key block).finish.entries := by
    rw [← abs_all, abs_store_new h hf]
    exact Lru.Walk.push_keyed (by rw [abs_all]; exact h.keyed) hnone
  have hold : ∀ q ∈ w.finish.lruLst, q ≠ w.cache.nextNode := fun q hq => (h.node_lt q hq).ne
  refine ⟨hkeyed, ?_, ?_, ?_⟩
  · have hindex : (w.finish.lruLst.map fun p =>
        ((update w.cache.node w.cache.nextNode block p).hashValue, p)) =
        w.finish.lruLst.map fun p => ((w.cache.node p).hashValue, p) :=
      map_congr_left fun q hq => by rw [update_of_ne (hold q hq)]
    have hmove : ((key, w.cache.nextNode) :: w.cache.cachedBlocks).Perm
        ((w.cache.nextNode :: w.finish.lruLst).map fun p =>
          ((update w.cache.node w.cache.nextNode block p).hashValue, p)) := by
      rw [map_cons, update_self, hkey, hindex]
      exact h.index.cons _
    simp only [store, hf]
    exact hmove.trans (List.perm_middle.symm.map _)
  · intro q hq
    simp only [store, hf, finish, mem_append, mem_cons] at hq ⊢
    have hlt : ∀ q ∈ w.finish.lruLst, q < w.cache.nextNode + 1 :=
      fun q hq => Nat.lt_succ_of_lt (h.node_lt q hq)
    rcases hq with hq | rfl | hq
    · exact hlt q (mem_append_left _ hq)
    · exact Nat.lt_succ_self _
    · exact hlt q (mem_append_right _ hq)
  · have hnum : w.cache.numBlocks = w.cache.cachedBlocks.length := h.numBlocks_eq
    simp only [store, hf, finish, length_cons, hnum]

theorem find_cases (h : w.finish.Wf) (key : XXH3Key) :
    (w.cache.find key = none ∧ Lru.lookup Block.hashValue w.abs.all key = none) ∨
    ∃ p, w.cache.find key = some p ∧ p ∈ w.finish.lruLst ∧
      Lru.lookup Block.hashValue w.abs.all key = some (w.cache.node p) := by
  have hsame : w.cache.find key = w.finish.find key := rfl
  rw [abs_all]
  cases hf : w.cache.find key with
  | none => exact .inl ⟨rfl, h.holds_eq_none (hsame ▸ hf)⟩
  | some p =>
      have hf' : w.finish.find key = some p := hsame ▸ hf
      exact .inr ⟨p, rfl, (h.find_some hf').1, h.holds_of_find hf'⟩

end Pass

section

theorem Wf.walkMatch_perm (h : c.Wf) (keys : List XXH3Key) :
    (Lru.walkMatch Block.hashValue keys ⟨c.entries, []⟩).all.Perm c.entries := by
  have hperm := Lru.walkMatch_perm keys (w := ⟨c.entries, []⟩)
    ((all_start c.entries).symm ▸ h.keyed)
  rwa [all_start] at hperm

variable [XXH3]

/-- The keys that `match` looks up, in order. -/
def matchKeys (c : PrefixCache) (tokenIds : List Token) (existed : List Block) : List XXH3Key :=
  chainKeys (existed.getLast?.map Block.hashValue)
    ((tokenBlocks c.blockSize tokenIds).drop existed.length)

def matched (c : PrefixCache) (tokenIds : List Token) (existed : List Block) : List Block :=
  if tokenIds.length / c.blockSize = 0 then []
  else existed ++ Lru.hits Block.hashValue c.entries (c.matchKeys tokenIds existed)

/-- The hash is a chain key unless the key buffer is too small for the block. -/
theorem xxh3128bitsHash_ensures (preHash : Option XXH3Key) (tokens : List Token) :
    Ensures (xxh3128bitsHash preHash tokens)
      (fun e => e = .keyBufferTooSmall ∧ ¬KeyFits tokens.length)
      (fun key => key = hashKey preHash tokens) := by
  cases preHash with
  | none => exact rfl
  | some pre =>
      rw [xxh3128bitsHash]
      split
      · exact rfl
      · rename_i hfits
        exact ⟨rfl, hfits⟩

/-- The loop of `match` takes the blocks of the cached chain and makes them recent. -/
theorem matchLoop_ensures {n : Nat} {rest : List (List Token)} {w : Pass}
    (hlen : ∀ tokens ∈ rest, tokens.length = n) (h : w.finish.Wf) (preHash : Option XXH3Key)
    (blocks : List Block) :
    Ensures (matchLoop rest preHash blocks w)
      (fun e => e = .keyBufferTooSmall ∧ ¬KeyFits n)
      (fun r => r.2.finish.Wf ∧ r.2.finish.blockSize = w.finish.blockSize ∧
        r.2.abs = Lru.walkMatch Block.hashValue (chainKeys preHash rest) w.abs ∧
        r.1 = blocks ++ Lru.hits Block.hashValue w.finish.entries (chainKeys preHash rest) ∧
        r.2.heap = w.heap.incAll
          (Lru.hits Block.hashValue w.finish.entries (chainKeys preHash rest))) := by
  induction rest generalizing w preHash blocks with
  | nil => exact ⟨h, rfl, rfl, by simp [Lru.hits], by simp [Lru.hits]⟩
  | cons tokens rest ih =>
      have hhash := xxh3128bitsHash_ensures preHash tokens
      rw [hlen tokens mem_cons_self] at hhash
      refine hhash.bind fun key hkey => ?_
      subst hkey
      rw [chainKeys_cons, Lru.walkMatch, Lru.hits, ← Pass.abs_all]
      obtain ⟨hf, hl⟩ | ⟨p, hf, hp, hl⟩ := Pass.find_cases h (hashKey preHash tokens)
      · rw [hf, hl]
        exact ⟨h, rfl, rfl, by simp, by simp⟩
      · rw [hf, hl]
        -- The rest of the loop runs on a reordered cache, where every key means the same.
        have hwf := Pass.touch_wf h hp
        have hperm : (w.touch p).finish.entries.Perm w.finish.entries := by
          rw [← Pass.abs_all, ← Pass.abs_all, Pass.abs_touch h hp]
          refine Lru.Walk.touch_perm ?_ (Lru.mem_of_lookup hl).1
          rw [Pass.abs_all]
          exact h.keyed
        have hsame : Lru.hits Block.hashValue (w.touch p).finish.entries
            (chainKeys (some (hashKey preHash tokens)) rest) =
            Lru.hits Block.hashValue w.finish.entries
              (chainKeys (some (hashKey preHash tokens)) rest) :=
          Lru.hits_congr fun k _ => Lru.lookup_perm hwf.keyed hperm k
        rw [← Pass.abs_all w] at hsame
        have hrest := ih (w := { w.touch p with heap := w.heap.incRefCount (w.cache.node p) })
          (fun t ht => hlen t (mem_cons_of_mem _ ht)) hwf (some (hashKey preHash tokens))
          (blocks ++ [w.cache.node p])
        refine hrest.mono_post fun r hr => ?_
        obtain ⟨hrwf, hsize, habs, hblocks, hheap⟩ := hr
        refine ⟨hrwf, hsize, ?_, ?_, ?_⟩
        · exact habs.trans (congrArg _ (Pass.abs_touch h hp))
        · rw [hblocks, append_assoc]
          exact congrArg (fun l => blocks ++ ([w.cache.node p] ++ l)) hsame
        · rw [hheap]
          exact congrArg ((w.heap.incRefCount (w.cache.node p)).incAll ·) hsame

@[simp] theorem matchKeys_eq_nil {tokenIds : List Token} {existed : List Block}
    (h : tokenIds.length / c.blockSize = 0) : c.matchKeys tokenIds existed = [] := by
  have hnil : tokenBlocks c.blockSize tokenIds = [] := by
    rw [← length_eq_zero_iff, tokenBlocks_length, h]
  simp [matchKeys, hnil]

/-- `match` returns the existing blocks and the longest run of present ones, with
one new handle each, and reorders the cache. -/
theorem matchTokens_ensures (h : c.Wf) (s : BlockHeap) (tokenIds : List Token)
    (existed : List Block) :
    Ensures (c.matchTokens s tokenIds existed)
      (fun e => e = .keyBufferTooSmall ∧ ¬KeyFits c.blockSize)
      (fun r => r.1 = c.matched tokenIds existed ∧ r.2.1.Wf ∧ r.2.1.blockSize = c.blockSize ∧
        r.2.1.entries = (Lru.walkMatch Block.hashValue (c.matchKeys tokenIds existed)
          ⟨c.entries, []⟩).all ∧
        r.2.2 = s.incAll (c.matched tokenIds existed)) := by
  have hround : roundDown tokenIds.length c.blockSize = 0 ↔ tokenIds.length / c.blockSize = 0 := by
    rw [roundDown, Nat.mul_eq_zero]
    constructor
    · rintro (h | h)
      · exact h
      · rw [h, Nat.div_zero]
    · exact .inl
  rw [matchTokens, matched]
  by_cases hzero : tokenIds.length / c.blockSize = 0
  · rw [if_pos (hround.mpr hzero), if_pos hzero, matchKeys_eq_nil hzero]
    exact ⟨rfl, h, rfl, by simp [Lru.walkMatch, Lru.Walk.all], rfl⟩
  · rw [if_neg (mt hround.mp hzero), if_neg hzero]
    let w : Pass := { cache := c, heap := s.incAll existed }
    have hfinish : w.finish = c := by simp [w, Pass.finish]
    have habs : w.abs = ⟨c.entries, []⟩ := rfl
    have hlen : ∀ tokens ∈ (tokenBlocks c.blockSize tokenIds).drop existed.length,
        tokens.length = c.blockSize :=
      fun tokens ht => length_of_mem_tokenBlocks (mem_of_mem_drop ht)
    have hloop := matchLoop_ensures hlen (hfinish ▸ h)
      (existed.getLast?.map Block.hashValue) existed
    rw [hfinish] at hloop
    refine hloop.bind fun r hr => ?_
    obtain ⟨hwf, hsize, hwalk, hblocks, hheap⟩ := hr
    refine ⟨hblocks, hwf, hsize, ?_, ?_⟩
    · rw [← Pass.abs_all, hwalk]
      rfl
    · rw [BlockHeap.incAll_append]
      exact hheap

end

/-- Store blocks one after the other, each under the hash value it carries. -/
def Pass.storeAll (w : Pass) (blocks : List Block) : Pass :=
  blocks.foldl (fun w b => w.store b.hashValue b) w

@[simp] theorem Pass.storeAll_nil (w : Pass) : w.storeAll [] = w := rfl

@[simp] theorem Pass.storeAll_cons (w : Pass) (b : Block) (bs : List Block) :
    w.storeAll (b :: bs) = (w.store b.hashValue b).storeAll bs := rfl

/-- Storing blocks one by one, as the abstract cache does. -/
theorem Pass.storeAll_spec {w : Pass} (h : w.finish.Wf) (bs : List Block) :
    (w.storeAll bs).finish.Wf ∧ (w.storeAll bs).finish.blockSize = w.finish.blockSize ∧
      (w.storeAll bs).abs = Lru.walkStore Block.hashValue bs w.abs ∧
      (w.storeAll bs).heap = w.heap.incAll (Lru.walkStored Block.hashValue bs w.abs) ∧
      (w.storeAll bs).insertKeys =
        w.insertKeys ++ (Lru.walkStored Block.hashValue bs w.abs).map Block.hashValue := by
  induction bs generalizing w with
  | nil => exact ⟨h, rfl, rfl, rfl, by simp [Lru.walkStored]⟩
  | cons b bs ih =>
      rw [Pass.storeAll_cons, Lru.walkStore, Lru.walkStored]
      obtain ⟨hf, hl⟩ | ⟨p, hf, hp, hl⟩ := Pass.find_cases h b.hashValue
      · rw [hl]
        obtain ⟨hwf, hsize, habs, hheap, hkeys⟩ := ih (Pass.store_new_wf h hf rfl)
        rw [Pass.abs_store_new h hf] at habs hheap hkeys
        refine ⟨hwf, hsize.trans ?_, habs, hheap.trans ?_, hkeys.trans ?_⟩
        · simp only [Pass.store, hf, Pass.finish]
        · simp only [Pass.store, hf, BlockHeap.incAll_cons]
        · simp only [Pass.store, hf, map_cons, append_assoc, singleton_append]
      · have hstore : w.store b.hashValue b = w.touch p := by simp only [Pass.store, hf]
        rw [hl, hstore]
        obtain ⟨hwf, hsize, habs, hheap, hkeys⟩ := ih (Pass.touch_wf h hp)
        rw [Pass.abs_touch h hp] at habs hheap hkeys
        exact ⟨hwf, hsize, habs, hheap, hkeys⟩

structure Stored (c : PrefixCache) (s : BlockHeap) (blocks : List Block) (r : Inserted) :
    Prop where
  wf : r.cache.Wf
  blockSize_eq : r.cache.blockSize = c.blockSize
  entries_eq : r.cache.entries =
    (Lru.walkStore Block.hashValue blocks ⟨c.entries, []⟩).all
  heap_eq : r.heap = s.incAll (Lru.walkStored Block.hashValue blocks ⟨c.entries, []⟩)
  insertKeys_eq : r.insertKeys =
    (Lru.walkStored Block.hashValue blocks ⟨c.entries, []⟩).map Block.hashValue

theorem Wf.walkStore_perm (h : c.Wf) (blocks : List Block) :
    (Lru.walkStore Block.hashValue blocks ⟨c.entries, []⟩).all.Perm
      (Lru.walkStored Block.hashValue blocks ⟨c.entries, []⟩ ++ c.entries) := by
  have hperm := Lru.walkStore_perm blocks (w := ⟨c.entries, []⟩)
    ((all_start c.entries).symm ▸ h.keyed)
  rwa [all_start] at hperm

theorem Stored.perm {s : BlockHeap} {blocks : List Block} {r : Inserted} (h : c.Wf)
    (hr : Stored c s blocks r) : r.cache.entries.Perm
      (Lru.walkStored Block.hashValue blocks ⟨c.entries, []⟩ ++ c.entries) := by
  rw [hr.entries_eq]
  exact h.walkStore_perm blocks

theorem stored_storeAll (h : c.Wf) (s : BlockHeap) (bs out : List Block) (n : Nat) :
    Stored c s bs
      { nTokens := n
        blocks := out
        insertKeys := (Pass.storeAll { cache := c, heap := s } bs).insertKeys
        cache := (Pass.storeAll { cache := c, heap := s } bs).finish
        heap := (Pass.storeAll { cache := c, heap := s } bs).heap } := by
  let w : Pass := { cache := c, heap := s }
  have hfinish : w.finish = c := by simp [w, Pass.finish]
  obtain ⟨hwf, hsize, habs, hheap, hkeys⟩ := Pass.storeAll_spec (hfinish ▸ h) bs
  refine ⟨hwf, hsize, ?_, hheap, hkeys.trans (nil_append _)⟩
  rw [← Pass.abs_all, habs]
  rfl

theorem insertBlocksLoop_eq (blocks : List Block) (w : Pass) :
    insertBlocksLoop blocks w = w.storeAll (blocks.filter (·.isValid)) := by
  induction blocks generalizing w with
  | nil => rfl
  | cons b bs ih =>
      rw [insertBlocksLoop, ih]
      by_cases hb : b.isValid <;> simp [hb]

theorem insertBlocks_stored (h : c.Wf) (s : BlockHeap) (blocks : List Block) :
    Stored c s (blocks.filter (·.isValid)) (c.insertBlocks s blocks) := by
  rw [insertBlocks, insertBlocksLoop_eq]
  exact stored_storeAll h s _ _ _

section

variable [XXH3]

/-- The blocks of one `insert` with their new hash values. -/
def stamp (blockSize : Nat) (tokenIds : List Token) :
    List (List Token × Block) → Nat → Option XXH3Key → List Block
  | [], _, _ => []
  | (tokens, block) :: rest, blockIdx, preHash =>
      let key := hashKey preHash tokens
      block.setHashValue key (tokenIds.take ((blockIdx + 1) * blockSize)) ::
        stamp blockSize tokenIds rest (blockIdx + 1) (some key)

theorem map_core_stamp (blockSize : Nat) (tokenIds : List Token)
    (todo : List (List Token × Block)) (blockIdx : Nat) (preHash : Option XXH3Key) :
    (stamp blockSize tokenIds todo blockIdx preHash).map Block.core =
      todo.map fun e => e.2.core := by
  induction todo generalizing blockIdx preHash with
  | nil => rfl
  | cons e todo ih =>
      simp [stamp, ih]

/-- The loop of `insert` stores the blocks under the keys of the chain. -/
theorem insertLoop_ensures (blockSize : Nat) {n : Nat} (tokenIds : List Token)
    {todo : List (List Token × Block)} (hlen : ∀ e ∈ todo, e.1.length = n) (blockIdx : Nat)
    (preHash : Option XXH3Key) (w : Pass) :
    Ensures (insertLoop blockSize tokenIds todo blockIdx preHash w)
      (fun e => e = .keyBufferTooSmall ∧ ¬KeyFits n)
      (fun r => r.1 = stamp blockSize tokenIds todo blockIdx preHash ∧
        r.2 = w.storeAll (stamp blockSize tokenIds todo blockIdx preHash)) := by
  induction todo generalizing w blockIdx preHash with
  | nil => exact ⟨rfl, rfl⟩
  | cons e todo ih =>
      obtain ⟨tokens, block⟩ := e
      rw [stamp]
      have hhash := xxh3128bitsHash_ensures preHash tokens
      rw [hlen _ mem_cons_self] at hhash
      refine hhash.bind fun key hkey => ?_
      subst hkey
      have hrest := ih (fun e he => hlen e (mem_cons_of_mem _ he)) (blockIdx + 1)
        (some (hashKey preHash tokens))
      exact (hrest _).bind fun r hr => ⟨by rw [hr.1], hr.2⟩

/-- The number of blocks that `insert` works on. -/
def insertCount (c : PrefixCache) (tokenIds : List Token) (blocks : List Block) : Nat :=
  min (tokenIds.length / c.blockSize) blocks.length

/-- The blocks that `insert` stamps and stores. -/
def stamped (c : PrefixCache) (tokenIds : List Token) (blocks : List Block)
    (existedNum : Nat) : List Block :=
  stamp c.blockSize tokenIds (((tokenBlocks c.blockSize tokenIds).zip blocks).drop existedNum)
    existedNum (if existedNum = 0 then none else blocks[existedNum - 1]?.map Block.hashValue)

/-- The caller's blocks after `insert`. -/
def restamped (c : PrefixCache) (tokenIds : List Token) (blocks : List Block)
    (existedNum : Nat) : List Block :=
  if c.insertCount tokenIds blocks = 0 then blocks
  else blocks.take existedNum ++ c.stamped tokenIds blocks existedNum ++
    blocks.drop (c.insertCount tokenIds blocks)

variable {tokenIds : List Token} {blocks : List Block}

@[simp] theorem stamped_eq_nil {existedNum : Nat}
    (h : c.insertCount tokenIds blocks = 0) : c.stamped tokenIds blocks existedNum = [] := by
  have hnil : (tokenBlocks c.blockSize tokenIds).zip blocks = [] := by
    rw [← length_eq_zero_iff, length_zip, tokenBlocks_length]
    exact h
  simp [stamped, hnil, stamp]

theorem exists_of_mem_stamped {existedNum : Nat} {b : Block}
    (hb : b ∈ c.stamped tokenIds blocks existedNum) : ∃ a ∈ blocks, a.core = b.core := by
  have hmem := mem_map_of_mem (f := Block.core) hb
  rw [stamped, map_core_stamp] at hmem
  obtain ⟨e, he, heq⟩ := List.mem_map.mp hmem
  exact ⟨e.2, (of_mem_zip (mem_of_mem_drop he)).2, heq⟩

theorem map_core_restamped {existedNum : Nat}
    (h : 0 < c.insertCount tokenIds blocks → existedNum ≤ c.insertCount tokenIds blocks) :
    (c.restamped tokenIds blocks existedNum).map Block.core = blocks.map Block.core := by
  rw [restamped]
  split
  · rfl
  · rename_i hne
    have hle := h (Nat.pos_of_ne_zero hne)
    have hzip : ((tokenBlocks c.blockSize tokenIds).zip blocks).map Prod.snd =
        blocks.take (c.insertCount tokenIds blocks) := by
      rw [zip_eq_zip_take_min, tokenBlocks_length, map_snd_zip (by simp)]
      rfl
    have hmid : (c.stamped tokenIds blocks existedNum).map Block.core =
        ((blocks.take (c.insertCount tokenIds blocks)).drop existedNum).map Block.core := by
      rw [stamped, map_core_stamp, ← hzip, ← map_drop, map_map]
      rfl
    have hfront : blocks.take existedNum =
        (blocks.take (c.insertCount tokenIds blocks)).take existedNum := by
      rw [take_take, Nat.min_eq_left hle]
    rw [map_append, map_append, hmid, ← map_append, ← map_append, hfront,
      take_append_drop, take_append_drop]

/-- What `insert` can fail, and what it stores otherwise. -/
theorem insert_ensures (h : c.Wf) (s : BlockHeap) (tokenIds : List Token) (blocks : List Block)
    (existedNum : Nat) :
    Ensures (c.insert s tokenIds blocks existedNum)
      (fun e => e = .sharedBeyondCached ∧ c.insertCount tokenIds blocks < existedNum ∧
          0 < c.insertCount tokenIds blocks ∨
        e = .keyBufferTooSmall ∧ ¬KeyFits c.blockSize)
      (fun r => r.blocks = c.restamped tokenIds blocks existedNum ∧
        r.nTokens = c.insertCount tokenIds blocks * c.blockSize ∧
        (0 < c.insertCount tokenIds blocks → existedNum ≤ c.insertCount tokenIds blocks) ∧
        Stored c s (c.stamped tokenIds blocks existedNum) r) := by
  rw [insert, restamped]
  by_cases hzero : c.insertCount tokenIds blocks = 0
  · have hstored := stored_storeAll h s [] blocks 0
    have hfinish : Pass.finish { cache := c, heap := s } = c := by simp [Pass.finish]
    rw [Pass.storeAll_nil, hfinish] at hstored
    rw [insertCount] at hzero
    rw [if_pos hzero, insertCount, if_pos hzero, stamped_eq_nil hzero]
    exact ⟨rfl, by simp [hzero], fun hpos => absurd hzero hpos.ne', hstored⟩
  · rw [if_neg hzero]
    rw [insertCount] at hzero
    rw [if_neg hzero]
    by_cases hlt : min (tokenIds.length / c.blockSize) blocks.length < existedNum
    · rw [if_pos hlt]
      exact .inl ⟨rfl, hlt, Nat.pos_of_ne_zero hzero⟩
    · rw [if_neg hlt]
      have hlen : ∀ e ∈ ((tokenBlocks c.blockSize tokenIds).zip blocks).drop existedNum,
          e.1.length = c.blockSize := fun e he =>
        length_of_mem_tokenBlocks (of_mem_zip (mem_of_mem_drop he)).1
      have hloop := insertLoop_ensures c.blockSize tokenIds hlen
        existedNum (if existedNum = 0 then none else blocks[existedNum - 1]?.map Block.hashValue)
        { cache := c, heap := s }
      refine (hloop.mono (fun e he => .inr he) fun r hr => hr).bind fun r hr => ?_
      obtain ⟨stampedBlocks, w⟩ := r
      obtain ⟨hst, hw⟩ := hr
      subst hst hw
      exact ⟨rfl, rfl, fun _ => Nat.le_of_not_lt hlt, stored_storeAll h s _ _ _⟩

end

/-- The cache without one of its nodes. -/
def unlink (c : PrefixCache) (p : Nat) : PrefixCache :=
  { c with
    lruLst := c.lruLst.filter (· ≠ p)
    cachedBlocks := c.cachedBlocks.filter (·.1 ≠ (c.node p).hashValue)
    numBlocks := c.numBlocks - 1 }

theorem entries_unlink (h : c.Wf) (hp : p ∈ c.lruLst) :
    (c.unlink p).entries = Lru.remove Block.hashValue c.entries (c.node p).hashValue :=
  map_filter_node fun _ hq => h.hash_eq_iff hq hp

theorem cons_entries_unlink_perm (h : c.Wf) (hp : p ∈ c.lruLst) :
    (c.node p :: (c.unlink p).entries).Perm c.entries := by
  rw [entries_unlink h hp]
  exact Lru.cons_remove_perm h.keyed (mem_map_of_mem hp)

theorem Wf.unlink (h : c.Wf) (hp : p ∈ c.lruLst) : (c.unlink p).Wf := by
  have hfilter : (c.unlink p).cachedBlocks.Perm
      ((c.unlink p).lruLst.map fun q => ((c.node q).hashValue, q)) := by
    have hkeep := h.index.filter (·.1 ≠ (c.node p).hashValue)
    rw [filter_map] at hkeep
    refine hkeep.trans (List.Perm.of_eq (congrArg _ (filter_congr fun q hq => ?_)))
    simp [h.hash_eq_iff hq hp]
  refine ⟨?_, hfilter, fun q hq => h.node_lt q (mem_of_mem_filter hq), ?_⟩
  · rw [entries_unlink h hp]
    exact h.keyed.sublist filter_sublist
  · have hlen := (cons_entries_unlink_perm h hp).length_eq
    have hindex := hfilter.length_eq
    have hall := h.index.length_eq
    have hnum := h.numBlocks_eq
    simp only [entries, length_map, length_cons] at hlen hindex hall
    show c.numBlocks - 1 = (c.unlink p).cachedBlocks.length
    omega

/-- What any eviction does to the entries, whichever blocks it finds in use. -/
structure EvictedFrom (c : PrefixCache) (gone : List Block) (c' : PrefixCache) : Prop where
  wf : c'.Wf
  blockSize_eq : c'.blockSize = c.blockSize
  sublist : c'.entries.Sublist c.entries
  perm : (gone ++ c'.entries).Perm c.entries

theorem evictedFrom_refl (h : c.Wf) : EvictedFrom c [] c := ⟨h, rfl, .refl _, .refl _⟩

theorem EvictedFrom.unlink {gone : List Block} (h : c.Wf) (hp : p ∈ c.lruLst)
    (he : EvictedFrom (c.unlink p) gone c') : EvictedFrom c (c.node p :: gone) c' where
  wf := he.wf
  blockSize_eq := he.blockSize_eq
  sublist := by
    refine he.sublist.trans ?_
    rw [entries_unlink h hp]
    exact filter_sublist
  perm := (he.perm.cons _).trans (cons_entries_unlink_perm h hp)

/-- The loop variables after one eviction. -/
def Evicted.drop (r : Evicted) (p : Nat) (heap : BlockHeap) : Evicted where
  evictCount := r.evictCount + 1
  evictKeys := r.evictKeys ++ [(r.cache.node p).hashValue]
  cache := r.cache.unlink p
  heap := heap

theorem evictLoop_cons (n p : Nat) (rest : List Nat) (r : Evicted) :
    evictLoop n (p :: rest) r =
      if r.evictCount < n then
        if r.heap.isShared (r.cache.node p) then evictLoop n rest r
        else r.heap.decRefCount (r.cache.node p) >>= fun heap => evictLoop n rest (r.drop p heap)
      else .ok r := rfl

theorem sublist_unlink {rest : List Nat} (h : c.Wf) (hrest : (p :: rest).Sublist c.lruLst) :
    rest.Sublist (c.unlink p).lruLst := by
  have hnodup := h.nodup.sublist hrest
  have hfilter := ((sublist_cons_self p rest).trans hrest).filter (· ≠ p)
  have hself : rest.filter (· ≠ p) = rest := List.filter_eq_self.mpr fun q hq => by
    have hne : q ≠ p := fun he => (List.nodup_cons.mp hnodup).1 (he ▸ hq)
    simpa using hne
  rwa [hself] at hfilter

/-- The loop of `evict`: what is gone, and its keys in order. -/
theorem evictLoop_ensures {rest : List Nat} {r : Evicted} (n : Nat) (h : r.cache.Wf)
    (hrest : rest.Sublist r.cache.lruLst) : IfOk (evictLoop n rest r) (fun r' => ∃ gone,
      EvictedFrom r.cache gone r'.cache ∧
      r'.evictKeys = r.evictKeys ++ gone.map Block.hashValue ∧
      r'.evictCount = r.evictCount + gone.length) := by
  induction rest generalizing r with
  | nil => exact ⟨[], evictedFrom_refl h, by simp, rfl⟩
  | cons p rest ih =>
      have hp : p ∈ r.cache.lruLst := hrest.subset mem_cons_self
      rw [evictLoop_cons]
      split
      · split
        · exact ih h ((sublist_cons_self p rest).trans hrest)
        · refine (ensures_of_forall_ok (Q := fun _ => True) fun _ _ => trivial).bind
            fun heap _ => ?_
          refine (ih (r := r.drop p heap) (h.unlink hp) (sublist_unlink h hrest)).mono_post
            fun r' hr => ?_
          obtain ⟨gone, hgone, hkeys, hcount⟩ := hr
          refine ⟨r.cache.node p :: gone, hgone.unlink h hp, ?_, ?_⟩
          · have hone : (r.drop p heap).evictKeys = r.evictKeys ++ [(r.cache.node p).hashValue] :=
              rfl
            rw [hkeys, hone, map_cons, append_assoc, singleton_append]
          · have hone : (r.drop p heap).evictCount = r.evictCount + 1 := rfl
            rw [length_cons]
            omega
      · exact ⟨[], evictedFrom_refl h, by simp, rfl⟩

/-- Without any assumption on the heap, `evict` removes some entries and reports
exactly their keys. -/
theorem evict_ensures (h : c.Wf) (s : BlockHeap) (n : Nat) :
    IfOk (c.evict s n) (fun r => ∃ gone, EvictedFrom c gone r.cache ∧
      r.evictKeys = gone.map Block.hashValue ∧ r.evictCount = gone.length) := by
  rw [evict]
  split
  · exact ⟨[], evictedFrom_refl h, rfl, rfl⟩
  · refine (evictLoop_ensures (r := { cache := c, heap := s }) n h (.refl _)).mono_post
      fun r hr => ?_
    simpa using hr

section Owned

variable {padding : Block} {live : Multiset (Ledger.Handle Int)}

/-- The loop of `evict` when the cache's nodes are accounted for in the ledger:
which blocks are in use does not change on the way, because an evicted block has
no other handle. -/
theorem evictLoop_owned (skipped : List Nat) {rest : List Nat} {r : Evicted} (n : Nat)
    (h : r.cache.Wf) (hsplit : r.cache.lruLst = skipped ++ rest)
    (o : Owned r.heap padding (handles r.cache.entries + live)) :
    Yields (evictLoop n rest r) (fun r' =>
      r'.cache.entries = skipped.map r.cache.node ++
        (Lru.sweep r.heap.isShared (n - r.evictCount) (rest.map r.cache.node)).1 ∧
      r'.evictCount = r.evictCount +
        (Lru.sweep r.heap.isShared (n - r.evictCount) (rest.map r.cache.node)).2.length ∧
      Owned r'.heap padding (handles r'.cache.entries + live) ∧
      r'.heap.freeBlocks.length = r.heap.freeBlocks.length ∧
      r'.heap.numFreeBlocks = r.heap.numFreeBlocks +
        (Lru.sweep r.heap.isShared (n - r.evictCount) (rest.map r.cache.node)).2.countP
          (·.refCount.isSome)) := by
  induction rest generalizing r skipped with
  | nil =>
      refine ⟨?_, ?_, o, rfl, ?_⟩ <;> simp [entries, hsplit, Lru.sweep]
  | cons p rest ih =>
      have hsub : (p :: rest).Sublist r.cache.lruLst := by
        rw [hsplit]
        exact sublist_append_right _ _
      have hp : p ∈ r.cache.lruLst := hsub.subset mem_cons_self
      rw [evictLoop_cons, map_cons]
      split
      · rename_i hlt
        obtain ⟨m, hm⟩ : ∃ m, n - r.evictCount = m + 1 := ⟨n - r.evictCount - 1, by omega⟩
        rw [hm, Lru.sweep]
        split
        · -- A block in use stays where it is.
          have hrest := ih (skipped ++ [p]) h (by simp [hsplit]) o
          rw [hm] at hrest
          simpa using hrest
        · rename_i hshared
          have hperm := cons_entries_unlink_perm h hp
          have hhandles := handles_perm hperm
          rw [handles_cons] at hhandles
          rw [← hhandles, add_assoc] at o
          refine o.decRefCount.bind fun t ht => ?_
          obtain ⟨ot, hlen, hnum⟩ := ht
          have hlst : (r.cache.unlink p).lruLst = skipped ++ rest := by
            have hnodup := h.nodup
            rw [hsplit, nodup_middle] at hnodup
            have hne : ∀ q ∈ skipped ++ rest, q ≠ p :=
              fun q hq he => (List.nodup_cons.mp hnodup).1 (he ▸ hq)
            have hfilter : (skipped ++ rest).filter (· ≠ p) = skipped ++ rest :=
              List.filter_eq_self.mpr fun q hq => by simpa using hne q hq
            simp only [PrefixCache.unlink, hsplit]
            rw [filter_append, filter_cons_of_neg (by simp), ← filter_append]
            exact hfilter
          have hsame : ∀ b ∈ rest.map r.cache.node, t.isShared b = r.heap.isShared b := by
            intro b hb
            have hmem : b ∈ (r.cache.unlink p).entries := by
              simp only [entries, hlst, map_append, mem_append]
              exact .inr hb
            have hle : b.handle ≤ handles (r.cache.unlink p).entries + live :=
              (handle_le_handles hmem).trans (Multiset.le_add_right _ _)
            rw [BlockHeap.isShared, BlockHeap.isShared,
              o.refCount_decRefCount_of_not_shared (by simpa using hshared) ot hle]
          have hrest := ih skipped (r := r.drop p t) (h.unlink hp) hlst ot
          have hcount : n - (r.drop p t).evictCount = m := by
            simp only [Evicted.drop]
            omega
          have hnode : (r.drop p t).cache.node = r.cache.node := rfl
          have hheap : (r.drop p t).heap = t := rfl
          rw [hcount, hnode, hheap, Lru.sweep_congr m hsame] at hrest
          refine hrest.mono_post fun r' hr => ?_
          obtain ⟨hentries, hevict, hown, hfree, hnumFree⟩ := hr
          refine ⟨hentries, ?_, hown, hfree.trans hlen, ?_⟩
          · have hone : (r.drop p t).evictCount = r.evictCount + 1 := rfl
            rw [length_cons]
            omega
          · have hfreed := o.freed_of_not_shared (by simpa using hshared)
            rw [countP_cons]
            omega
      · rename_i hge
        have hzero : n - r.evictCount = 0 := by omega
        rw [hzero, Lru.sweep_zero]
        exact ⟨by simp [entries, hsplit], rfl, o, rfl, rfl⟩

/-- `evict` on an accounted heap sweeps the entries that nobody else holds. -/
theorem evict_owned {s : BlockHeap} (h : c.Wf) (n : Nat)
    (o : Owned s padding (handles c.entries + live)) : Yields (c.evict s n) (fun r =>
      r.cache.entries = (Lru.sweep s.isShared n c.entries).1 ∧
      r.evictCount = (Lru.sweep s.isShared n c.entries).2.length ∧
      Owned r.heap padding (handles r.cache.entries + live) ∧
      r.heap.freeBlocks.length = s.freeBlocks.length ∧
      r.heap.numFreeBlocks = s.numFreeBlocks +
        (Lru.sweep s.isShared n c.entries).2.countP (·.refCount.isSome)) := by
  rw [evict]
  split
  · rename_i hempty
    have hnil : c.entries = [] := by
      have hindex := h.index.length_eq
      have hnum := h.numBlocks_eq
      rw [length_map] at hindex
      rw [entries, map_eq_nil_iff, ← length_eq_zero_iff]
      rcases hempty with hzero | hzero
      · omega
      · rw [hzero, length_nil]
    rw [hnil] at o ⊢
    exact ⟨hnil, rfl, by rwa [hnil], rfl, rfl⟩
  · have hloop := evictLoop_owned [] (r := { cache := c, heap := s }) n h rfl o
    simpa [entries] using hloop

end Owned

end PrefixCache

end Xllm
