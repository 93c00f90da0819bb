import Xllm.PrefixCache.Refine

/-!
# What a match means

A cached block stands for the token prefix it was stamped for. As long as the
chained hash has no collision among the pairs that are hashed, the key of a
prefix and the prefix determine each other, and looking up chained keys is
looking up token prefixes: `match` returns the blocks stored for the prefixes of
its argument, up to the first prefix that is not cached.

`Stamped` is the property of one block that makes this work. It is stated for a
set `S` of pairs, which every operation of a run has to stay in.
-/

namespace Xllm

open Contract List

section

variable {S : Set (Option XXH3Key × List Token)} {blockSize : Nat} {b b' : Block}
variable {tokenIds : List Token} {blocks : List Block} {k : Nat}

theorem length_take_whole {n : Nat} (hpos : 0 < blockSize)
    (hn : n ≤ tokenIds.length / blockSize) :
    (tokenIds.take (n * blockSize)).length = n * blockSize := by
  rw [length_take, Nat.min_eq_left ((Nat.le_div_iff_mul_le hpos).mp hn)]

variable [XXH3]

structure Stamped (S : Set (Option XXH3Key × List Token)) (blockSize : Nat) (b : Block) :
    Prop where
  key_eq : prefixKey blockSize b.hashTokens = some b.hashValue
  whole : b.hashTokens.length / blockSize * blockSize = b.hashTokens.length
  occurs : ∀ p ∈ prefixPairs blockSize b.hashTokens, p ∈ S

/-- The first `k` blocks were stamped for the prefixes of these tokens. -/
def Carries (S : Set (Option XXH3Key × List Token)) (blockSize : Nat) (tokenIds : List Token)
    (blocks : List Block) (k : Nat) : Prop :=
  ∀ j < k, (j + 1) * blockSize ≤ tokenIds.length ∧
    ∃ b, blocks[j]? = some b ∧ Stamped S blockSize b ∧
      b.hashTokens = tokenIds.take ((j + 1) * blockSize)

theorem Stamped.tokens_eq (hfree : CollisionFree S) (h : Stamped S blockSize b)
    (h' : Stamped S blockSize b') (hkey : b.hashValue = b'.hashValue) :
    b.hashTokens = b'.hashTokens :=
  prefixKey_injective hfree h.whole h'.whole h.occurs h'.occurs
    (by rw [h.key_eq, h'.key_eq, hkey])

theorem Stamped.key_eq_of_tokens (h : Stamped S blockSize b) (h' : Stamped S blockSize b')
    (htokens : b.hashTokens = b'.hashTokens) : b.hashValue = b'.hashValue := by
  have hkey := h.key_eq
  rw [htokens, h'.key_eq] at hkey
  exact (Option.some.inj hkey).symm

theorem prefixPairs_take {n : Nat} (hpos : 0 < blockSize) (hn : n ≤ tokenIds.length / blockSize) :
    prefixPairs blockSize (tokenIds.take (n * blockSize)) =
      (prefixPairs blockSize tokenIds).take n := by
  rw [prefixPairs, tokenBlocks_take hpos hn, chainPairs_take, prefixPairs]

theorem stamped_of_key {i : Nat} {key : XXH3Key} (hpos : 0 < blockSize)
    (hkey : (chainKeys none (tokenBlocks blockSize tokenIds))[i]? = some key)
    (hpairs : ∀ p ∈ (prefixPairs blockSize tokenIds).take (i + 1), p ∈ S) (b : Block) :
    Stamped S blockSize (b.setHashValue key (tokenIds.take ((i + 1) * blockSize))) := by
  have hi : i < tokenIds.length / blockSize := by
    have := (List.getElem?_eq_some_iff.mp hkey).1
    rwa [chainKeys_length, tokenBlocks_length] at this
  refine ⟨?_, ?_, ?_⟩
  · rw [Block.setHashValue_hashTokens, prefixKey_take hpos hi, hkey, Block.setHashValue_hashValue]
  · rw [Block.setHashValue_hashTokens, length_take_whole hpos hi, Nat.mul_div_cancel _ hpos]
  · rw [Block.setHashValue_hashTokens, prefixPairs_take hpos hi]
    exact hpairs

end

namespace PrefixCache

section Stamp

variable [XXH3] {S : Set (Option XXH3Key × List Token)}
variable {tokenIds : List Token} {blocks : List Block} {k : Nat} {c : PrefixCache}

theorem getElem?_stamp (blockSize : Nat) (tokenIds : List Token)
    (todo : List (List Token × Block)) (blockIdx : Nat) (preHash : Option XXH3Key) (i : Nat)
    {b : Block} (h : (stamp blockSize tokenIds todo blockIdx preHash)[i]? = some b) :
    ∃ e key, todo[i]? = some e ∧ (chainKeys preHash (todo.map Prod.fst))[i]? = some key ∧
      b = e.2.setHashValue key (tokenIds.take ((blockIdx + i + 1) * blockSize)) := by
  induction todo generalizing blockIdx preHash i with
  | nil => simp [stamp] at h
  | cons e todo ih =>
      obtain ⟨tokens, block⟩ := e
      cases i with
      | zero =>
          refine ⟨_, _, rfl, rfl, ?_⟩
          simpa [stamp] using h.symm
      | succ i =>
          obtain ⟨e, key, he, hkey, hb⟩ := ih (blockIdx + 1) (some (hashKey preHash tokens)) i
            (by simpa [stamp] using h)
          refine ⟨e, key, by simpa using he, by simpa using hkey, ?_⟩
          rw [hb]
          congr 3
          omega

/-- The chain that `insert` computes from its starting point is the chain of the
whole token sequence. -/
theorem chainKeys_insert (hpos : 0 < c.blockSize) (hk : k ≤ c.insertCount tokenIds blocks)
    (hcarries : Carries S c.blockSize tokenIds blocks k) :
    chainKeys (if k = 0 then none else blocks[k - 1]?.map Block.hashValue)
        ((((tokenBlocks c.blockSize tokenIds).zip blocks).drop k).map Prod.fst) =
      ((chainKeys none (tokenBlocks c.blockSize tokenIds)).take
        (c.insertCount tokenIds blocks)).drop k := by
  have hfst : ((tokenBlocks c.blockSize tokenIds).zip blocks).map Prod.fst =
      (tokenBlocks c.blockSize tokenIds).take (c.insertCount tokenIds blocks) := by
    rw [zip_eq_zip_take_min, tokenBlocks_length, map_fst_zip (by simp)]
    rfl
  rw [map_drop, hfst, ← chainKeys_take]
  cases k with
  | zero => simp
  | succ k =>
      obtain ⟨hle, b, hb, hstamped, htokens⟩ := hcarries k (Nat.lt_succ_self k)
      rw [Nat.add_sub_cancel, hb]
      refine chainKeys_drop none _ k b.hashValue ?_
      have hlt : k < tokenIds.length / c.blockSize := by
        rw [Nat.lt_iff_add_one_le, Nat.le_div_iff_mul_le hpos]
        exact hle
      have hkey := hstamped.key_eq
      rw [htokens, prefixKey_take hpos hlt] at hkey
      rw [chainKeys_take, getElem?_take_of_lt (Nat.lt_of_succ_le hk), hkey]

/-- Every block that `insert` stores is stamped for the prefix that ends with it. -/
theorem stamped_mem {b : Block} (hpos : 0 < c.blockSize)
    (hk : 0 < c.insertCount tokenIds blocks → k ≤ c.insertCount tokenIds blocks)
    (hcarries : Carries S c.blockSize tokenIds blocks k)
    (hpairs : ∀ p ∈ (prefixPairs c.blockSize tokenIds).take (c.insertCount tokenIds blocks), p ∈ S)
    (hb : b ∈ c.stamped tokenIds blocks k) :
    ∃ i, k ≤ i ∧ i < c.insertCount tokenIds blocks ∧ Stamped S c.blockSize b ∧
      b.hashTokens = tokenIds.take ((i + 1) * c.blockSize) := by
  obtain ⟨j, hj⟩ := getElem?_of_mem hb
  have hn : 0 < c.insertCount tokenIds blocks := by
    by_contra hzero
    rw [stamped_eq_nil (by omega)] at hb
    cases hb
  obtain ⟨e, key, he, hkey, rfl⟩ := getElem?_stamp _ _ _ _ _ _ hj
  rw [chainKeys_insert hpos (hk hn) hcarries, getElem?_drop] at hkey
  have hlt : k + j < c.insertCount tokenIds blocks := by
    have := (List.getElem?_eq_some_iff.mp hkey).1
    rw [length_take] at this
    omega
  rw [getElem?_take_of_lt hlt] at hkey
  refine ⟨k + j, Nat.le_add_right k j, hlt, stamped_of_key hpos hkey (fun p hp => hpairs p ?_) _,
    rfl⟩
  exact (take_sublist_take_left hlt).subset hp

end Stamp

/-- The blocks of the nodes that the map refers to. -/
def storedBlocks (c : PrefixCache) : List Block := c.cachedBlocks.map fun e => c.node e.2

def stored (c : PrefixCache) (tokens : List Token) : Option Block :=
  c.storedBlocks.find? (·.hashTokens = tokens)

/-- `blocks` are the stored blocks for the prefixes of the tokens, block by block,
and no further prefix is stored. -/
structure LongestMatch (c : PrefixCache) (tokenIds : List Token) (blocks : List Block) : Prop where
  length_le : blocks.length ≤ tokenIds.length / c.blockSize
  stored_eq : ∀ i b, blocks[i]? = some b →
    c.stored (tokenIds.take ((i + 1) * c.blockSize)) = some b
  maximal : blocks.length < tokenIds.length / c.blockSize →
    c.stored (tokenIds.take ((blocks.length + 1) * c.blockSize)) = none

/-- Calls of the cache's members, each made in some state of the block heap. -/
inductive CacheOp where
  | insert (heap : BlockHeap) (tokenIds : List Token) (blocks : List Block)
      (existedSharedBlocksNum : Nat)
  | insertBlocks (heap : BlockHeap) (blocks : List Block)
  | matchTokens (heap : BlockHeap) (tokenIds : List Token) (existedSharedBlocks : List Block)
  | evict (heap : BlockHeap) (nBlocks : Nat)

section Run

variable {S : Set (Option XXH3Key × List Token)} {c : PrefixCache}

theorem Wf.storedBlocks_perm (h : c.Wf) : c.storedBlocks.Perm c.entries := by
  have hmap := h.index.map fun e => c.node e.2
  rwa [map_map] at hmap

variable [XXH3]

/-- One call, and the cache that it leaves. -/
def step (c : PrefixCache) : CacheOp → Except Check PrefixCache
  | .insert heap tokenIds blocks k => do
      let r ← c.insert heap tokenIds blocks k
      .ok r.cache
  | .insertBlocks heap blocks => .ok (c.insertBlocks heap blocks).cache
  | .matchTokens heap tokenIds existed => do
      let (_, cache, _) ← c.matchTokens heap tokenIds existed
      .ok cache
  | .evict heap n => do
      let r ← c.evict heap n
      .ok r.cache

/-- What the callers of `insert` see to: blocks that count as shared carry the
keys of the tokens, blocks inserted on their own carry some key, and all hashed
pairs are in `S`. -/
def Occurs (S : Set (Option XXH3Key × List Token)) (c : PrefixCache) : CacheOp → Prop
  | .insert _ tokenIds blocks k => Carries S c.blockSize tokenIds blocks k ∧
      ∀ p ∈ (prefixPairs c.blockSize tokenIds).take (c.insertCount tokenIds blocks), p ∈ S
  | .insertBlocks _ blocks => ∀ b ∈ blocks, b.isValid → Stamped S c.blockSize b
  | .matchTokens _ _ _ => True
  | .evict _ _ => True

/-- The invariant of every run: map and list agree, and every entry is stamped. -/
structure Exact (S : Set (Option XXH3Key × List Token)) (blockSize : Nat) (c : PrefixCache) :
    Prop where
  wf : c.Wf
  blockSize_eq : c.blockSize = blockSize
  stamped : ∀ b ∈ c.entries, Stamped S blockSize b

variable {blockSize : Nat}

theorem Exact.stored_eq_some {tokens : List Token} {b : Block}
    (h : Exact S blockSize c) :
    c.stored tokens = some b ↔ b ∈ c.entries ∧ b.hashTokens = tokens := by
  have hmem : ∀ b, b ∈ c.storedBlocks ↔ b ∈ c.entries := fun b => h.wf.storedBlocks_perm.mem_iff
  constructor
  · intro hb
    exact ⟨(hmem b).mp (mem_of_find?_eq_some hb), by simpa using find?_some hb⟩
  · rintro ⟨hb, rfl⟩
    cases hs : c.stored b.hashTokens with
    | none =>
        have hnone := List.find?_eq_none.mp hs b ((hmem b).mpr hb)
        simp at hnone
    | some b' =>
        have hb' := (hmem b').mp (mem_of_find?_eq_some hs)
        have htokens : b'.hashTokens = b.hashTokens := by simpa using find?_some hs
        have hkey := (h.stamped b' hb').key_eq_of_tokens (h.stamped b hb) htokens
        rw [h.wf.keyed.eq_of_key_eq hb' hb hkey]

theorem Exact.stored_eq_none {tokens : List Token} (h : Exact S blockSize c)
    (hnone : ∀ b ∈ c.entries, b.hashTokens ≠ tokens) : c.stored tokens = none := by
  rw [Option.eq_none_iff_forall_ne_some]
  intro b hb
  obtain ⟨hmem, htokens⟩ := h.stored_eq_some.mp hb
  exact hnone b hmem htokens

theorem Exact.of_subset {c' : PrefixCache} (h : Exact S blockSize c)
    (hwf : c'.Wf) (hsize : c'.blockSize = c.blockSize) (hsub : c'.entries ⊆ c.entries) :
    Exact S blockSize c' :=
  ⟨hwf, hsize.trans h.blockSize_eq, fun b hb => h.stamped b (hsub hb)⟩

theorem Exact.of_stored {heap : BlockHeap} {blocks : List Block} {r : Inserted}
    (h : Exact S blockSize c) (hr : Stored c heap blocks r)
    (hblocks : ∀ b ∈ blocks, Stamped S blockSize b) : Exact S blockSize r.cache := by
  refine ⟨hr.wf, hr.blockSize_eq.trans h.blockSize_eq, fun b hb => ?_⟩
  rcases List.mem_append.mp ((hr.perm h.wf).mem_iff.mp hb) with hb | hb
  · exact hblocks b ((Lru.walkStored_sublist _ _).subset hb)
  · exact h.stamped b hb

theorem Exact.step {op : CacheOp} (hpos : 0 < blockSize)
    (h : Exact S blockSize c) (hop : Occurs S c op) : IfOk (c.step op) (Exact S blockSize) := by
  have hsize := h.blockSize_eq
  subst hsize
  cases op with
  | insert heap tokenIds blocks k =>
      refine (insert_ensures h.wf heap tokenIds blocks k).ifOk.bind fun r hr => ?_
      obtain ⟨-, -, hk, hstored⟩ := hr
      refine h.of_stored hstored fun b hb => ?_
      obtain ⟨i, -, -, hb, -⟩ := stamped_mem hpos hk hop.1 hop.2 hb
      exact hb
  | insertBlocks heap blocks =>
      refine h.of_stored (insertBlocks_stored h.wf heap blocks) fun b hb => ?_
      obtain ⟨hb, hvalid⟩ := List.mem_filter.mp hb
      exact hop b hb hvalid
  | matchTokens heap tokenIds existed =>
      refine (matchTokens_ensures h.wf heap tokenIds existed).ifOk.bind fun r hr => ?_
      obtain ⟨-, hwf, hsize, hentries, -⟩ := hr
      have hperm := h.wf.walkMatch_perm (c.matchKeys tokenIds existed)
      rw [← hentries] at hperm
      exact h.of_subset hwf hsize hperm.subset
  | evict heap n =>
      refine (evict_ensures h.wf heap n).bind fun r hr => ?_
      obtain ⟨gone, hgone, -, -⟩ := hr
      exact h.of_subset hgone.wf hgone.blockSize_eq hgone.sublist.subset

theorem Exact.longestMatch (hfree : CollisionFree S) (hpos : 0 < c.blockSize)
    (h : Exact S c.blockSize c) {tokenIds : List Token}
    (hpairs : ∀ p ∈ (prefixPairs c.blockSize tokenIds).take
      ((c.matched tokenIds []).length + 1), p ∈ S) :
    LongestMatch c tokenIds (c.matched tokenIds []) := by
  have hkeys : c.matchKeys tokenIds [] = chainKeys none (tokenBlocks c.blockSize tokenIds) := by
    simp [matchKeys]
  have hblocks : c.matched tokenIds [] = Lru.hits Block.hashValue c.entries
      (chainKeys none (tokenBlocks c.blockSize tokenIds)) := by
    rw [matched]
    split
    · rename_i hzero
      rw [← hkeys, matchKeys_eq_nil hzero, Lru.hits]
    · rw [nil_append, hkeys]
  have hlen : (c.matched tokenIds []).length ≤ tokenIds.length / c.blockSize := by
    rw [hblocks]
    refine (Lru.length_hits_le _ _).trans ?_
    rw [chainKeys_length, tokenBlocks_length]
  refine ⟨hlen, ?_, ?_⟩
  · intro i b hb
    have hi : i < (c.matched tokenIds []).length := (List.getElem?_eq_some_iff.mp hb).1
    have hmem : b ∈ c.entries := by
      have := mem_of_getElem? hb
      rw [hblocks] at this
      exact Lru.mem_of_mem_hits this
    have hkey : (chainKeys none (tokenBlocks c.blockSize tokenIds))[i]? = some b.hashValue := by
      have hmap := Lru.map_key_hits Block.hashValue c.entries
        (chainKeys none (tokenBlocks c.blockSize tokenIds))
      rw [← hblocks] at hmap
      have hget := congrArg (·[i]?) hmap
      simp only [getElem?_map, hb, getElem?_take_of_lt hi] at hget
      exact hget.symm
    -- The entry carries the key of this prefix, so it was stamped for this prefix.
    have hpre := stamped_of_key hpos hkey
      (fun p hp => hpairs p ((take_sublist_take_left (by omega)).subset hp)) b
    exact h.stored_eq_some.mpr ⟨hmem, (h.stamped b hmem).tokens_eq hfree hpre rfl⟩
  · intro hlt
    refine h.stored_eq_none fun b hb htokens => ?_
    have hkey := (h.stamped b hb).key_eq
    rw [htokens, prefixKey_take hpos hlt, hblocks] at hkey
    exact Lru.lookup_eq_none_iff.mp (Lru.lookup_after_hits hkey) b hb rfl

/-- A match after any run of the cache returns exactly the stored blocks of the
longest cached prefix, or stops at the buffer check of the hash. -/
theorem run_match_exact (hfree : CollisionFree S) {blockSize : Nat} (hpos : 0 < blockSize)
    {ops : List CacheOp} (hops : Along step (Occurs S) { blockSize := blockSize } ops)
    {c : PrefixCache} (hrun : run step { blockSize := blockSize } ops = .ok c)
    (heap : BlockHeap) (tokenIds : List Token)
    (hpairs : ∀ p ∈ (prefixPairs blockSize tokenIds).take
      ((c.matched tokenIds []).length + 1), p ∈ S) :
    Ensures (c.matchTokens heap tokenIds [])
      (fun e => e = .keyBufferTooSmall ∧ ¬KeyFits blockSize)
      (fun r => LongestMatch c tokenIds r.1) := by
  have hstart : Exact S blockSize { blockSize := blockSize } :=
    ⟨wf_empty blockSize, rfl, by simp [entries]⟩
  have hexact : Exact S blockSize c :=
    (hops.ensures_run (fun _ _ h hop => h.step hpos hop) hstart).of_ok hrun
  have hsize := hexact.blockSize_eq
  subst hsize
  refine (matchTokens_ensures hexact.wf heap tokenIds []).mono_post fun r hr => ?_
  rw [hr.1]
  exact hexact.longestMatch hfree hpos hpairs

end Run

theorem run_match_exact_evicted :
    let _ : XXH3 := XXH3.lastBytes
    let heap : BlockHeap := ⟨fun _ => 1, 2, [0, 0, 0], 0⟩
    let blocks : List Block := [{ id := 1, refCount := some 0 }, { id := 2, refCount := some 1 }]
    ∃ c, run step { blockSize := 1 } [.insert heap [7, 8] blocks 0, .evict heap 1] = .ok c ∧
      (c.matched [7, 8] []).map Block.id = [1] ∧
      Ensures (c.matchTokens heap [7, 8] [])
        (fun e => e = .keyBufferTooSmall ∧ ¬KeyFits 1) (fun r => LongestMatch c [7, 8] r.1) := by
  intro _ heap blocks
  refine ⟨_, rfl, by decide +kernel, ?_⟩
  let S : Set (Option XXH3Key × List Token) := { p | p ∈ prefixPairs 1 [7, 8] }
  have hfree : CollisionFree S := by
    have hall : ∀ p ∈ prefixPairs 1 [7, 8], ∀ q ∈ prefixPairs 1 [7, 8],
        hashKey p.1 p.2 = hashKey q.1 q.2 → p = q := by decide +kernel
    exact fun p hp q hq h => hall p hp q hq h
  let ops : List CacheOp := [.insert heap [7, 8] blocks 0, .evict heap 1]
  have hops : Along step (Occurs S) { blockSize := 1 } ops :=
    ⟨⟨fun j hj => absurd hj (Nat.not_lt_zero j), fun p hp => mem_of_mem_take hp⟩,
      fun _ _ => ⟨trivial, fun _ _ => trivial⟩⟩
  exact run_match_exact hfree (by decide) hops rfl heap [7, 8]
    (fun p hp => mem_of_mem_take hp)

end PrefixCache

end Xllm
