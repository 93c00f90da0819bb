import Xllm.Block.ManagerImpl

/-!
# Contracts of the block manager

`Sound m live` ties a manager to the handles its callers hold: besides the
padding handle, the live handles are those of the cache's nodes and `live`. Each
member of `BlockManagerImpl` has one contract against it, which also says what
the member does to the counter, to the cached entries and to the caller's
handles. Only `allocate` can fail for lack of blocks; `free` never does.
-/

namespace Xllm

open Contract Ledger List

structure Sound (m : BlockManagerImpl) (live : Multiset (Handle Int)) : Prop where
  wf : m.prefixCache.Wf
  owned : Owned m.heap m.paddingBlock (handles m.prefixCache.entries + live)
  numBlocks_eq : m.heap.freeBlocks.length = m.options.numBlocks
  blockSize_eq : m.prefixCache.blockSize = m.options.blockSize
  blockSize_pos : 0 < m.options.blockSize

/-- The blocks that `allocate` can find: the free ones, and the cached ones that
nobody else holds. -/
def BlockManagerImpl.available (m : BlockManagerImpl) : Nat :=
  m.heap.numFreeBlocks + if m.options.enablePrefixCache then
    m.prefixCache.entries.countP fun b => !m.heap.isShared b else 0

section Take

variable {s : BlockHeap} {padding : Block} {live : Multiset (Handle Int)}

theorem BlockHeap.takeBlock_free (h : s.numFreeBlocks ≤ s.freeBlocks.length)
    (hpos : 0 < s.numFreeBlocks) (size : Nat) :
    s.free = (s.takeBlock size).2.free ++ [(s.takeBlock size).1.id] := by
  have hlt : s.numFreeBlocks - 1 < s.freeBlocks.length := by omega
  have hid : (s.takeBlock size).1.id = s.freeBlocks[s.numFreeBlocks - 1] := by
    simp [BlockHeap.takeBlock, hlt]
  rw [hid]
  show s.freeBlocks.take s.numFreeBlocks = s.freeBlocks.take (s.numFreeBlocks - 1) ++ _
  rw [← take_succ_eq_append_getElem hlt, Nat.sub_add_cancel hpos]

/-- What taking `n` blocks does, when that many are free. -/
structure Taken (s : BlockHeap) (size n : Nat) (bs : List Block) (t : BlockHeap) : Prop where
  length_eq : bs.length = n
  free_eq : s.free = t.free ++ (bs.map Block.id).reverse
  numFree_eq : t.numFreeBlocks + n = s.numFreeBlocks
  freeBlocks_eq : t.freeBlocks = s.freeBlocks
  valid : ∀ b ∈ bs, b.refCount.isSome
  size_eq : ∀ b ∈ bs, b.size = size

theorem Owned.takeBlocks (o : Owned s padding live) (size : Nat) {n : Nat}
    (hn : n ≤ s.numFreeBlocks) :
    Owned (s.takeBlocks size n).2 padding (handles (s.takeBlocks size n).1 + live) ∧
      Taken s size n (s.takeBlocks size n).1 (s.takeBlocks size n).2 := by
  induction n generalizing s live with
  | zero =>
      refine ⟨by simpa [BlockHeap.takeBlocks] using o, ?_⟩
      constructor <;> simp [BlockHeap.takeBlocks]
  | succ n ih =>
      have hpos : 0 < s.numFreeBlocks := by omega
      have hfirst := o.takeBlock hpos size
      have hfree := BlockHeap.takeBlock_free o.numFree_le hpos size
      have hnum : (s.takeBlock size).2.numFreeBlocks = s.numFreeBlocks - 1 := rfl
      obtain ⟨hrest, htaken⟩ := ih hfirst (by omega)
      rw [BlockHeap.takeBlocks]
      refine ⟨?_, ?_, ?_, ?_, ?_, ?_, ?_⟩
      · rw [handles_cons, add_assoc, add_left_comm]
        exact hrest
      · rw [length_cons, htaken.length_eq]
      · simp only [map_cons, reverse_cons]
        rw [← append_assoc, ← htaken.free_eq]
        exact hfree
      · have := htaken.numFree_eq
        simp only
        omega
      · exact htaken.freeBlocks_eq
      · exact List.forall_mem_cons.mpr ⟨rfl, htaken.valid⟩
      · exact List.forall_mem_cons.mpr ⟨rfl, htaken.size_eq⟩

theorem Taken.refCount_eq_one {bs : List Block} {t : BlockHeap} {size n : Nat} {b : Block}
    (h : Taken s size n bs t) (os : Owned s padding live)
    (ot : Owned t padding (handles bs + live)) (hb : b ∈ bs) : t.refCount b = 1 := by
  rw [ot.refCount_eq ((handle_le_handles hb).trans (Multiset.le_add_right _ _)) (h.valid b hb),
    Multiset.map_add, Multiset.count_add]
  have hnodup := os.balanced.nodup
  rw [h.free_eq, nodup_append] at hnodup
  have hone : ((handles bs).map Handle.id).count b.id = 1 := by
    rw [map_id_handles h.valid]
    exact Multiset.count_eq_one_of_mem (Multiset.coe_nodup.mpr (List.nodup_reverse.mp hnodup.2.1))
      (Multiset.mem_coe.mpr (mem_map_of_mem hb))
  have hzero : (live.map Handle.id).count b.id = 0 := by
    rw [Multiset.count_eq_zero, Multiset.mem_map]
    rintro ⟨k, hk, he⟩
    refine os.not_mem_free hk ?_
    rw [he, h.free_eq]
    exact mem_append_right _ (List.mem_reverse.mpr (mem_map_of_mem hb))
  omega

end Take

namespace Sound

variable {m m' : BlockManagerImpl} {live : Multiset (Handle Int)}

theorem refCount_eq (h : Sound m live) {b : Block} (hb : b.handle ≤ live)
    (hvalid : b.refCount.isSome) :
    m.heap.refCount b =
      ((handles m.prefixCache.entries).map Handle.id).count b.id +
        (live.map Handle.id).count b.id := by
  rw [h.owned.refCount_eq (hb.trans (Multiset.le_add_left _ _)) hvalid, Multiset.map_add,
    Multiset.count_add]

/-- A new manager has nothing in use and nothing cached. -/
theorem create {options : Options} (hblocks : 0 < options.numBlocks)
    (hsize : 0 < options.blockSize) :
    ∃ m, BlockManagerImpl.create options = .ok m ∧ Sound m 0 ∧ m.options = options ∧
      m.numUsedBlocks = 0 ∧ m.prefixCache.entries = [] := by
  let stack : BlockHeap :=
    { refCounts := fun _ => 0
      nextRef := 0
      freeBlocks := (List.range options.numBlocks).map fun (i : Nat) =>
        (options.numBlocks : Int) - i - 1
      numFreeBlocks := options.numBlocks }
  have hlen : stack.freeBlocks.length = options.numBlocks := by simp [stack]
  have hfree : stack.free = stack.freeBlocks := by
    rw [BlockHeap.free, take_of_length_le (Nat.le_of_eq hlen)]
  have hmem : ∀ i, BlockId stack.freeBlocks.length i ↔ i ∈ stack.free := by
    intro i
    rw [hfree, hlen, BlockId]
    simp only [stack, mem_map, mem_range]
    constructor
    · rintro ⟨hlo, hhi⟩
      exact ⟨(options.numBlocks - 1 - i).toNat, by omega, by omega⟩
    · rintro ⟨k, hk, rfl⟩
      omega
  have hnodup : stack.free.Nodup := by
    rw [hfree]
    refine List.Nodup.map ?_ nodup_range
    intro a b hab
    simp only at hab
    omega
  have hbal : Balanced (BlockId stack.freeBlocks.length) stack.refCounts stack.nextRef stack.free
      0 := by
    refine ⟨by simp, by simp, by simp, hnodup, by simp, fun i => ?_⟩
    simpa using hmem i
  -- The last pushed id is the first one out.
  have hlast : (stack.takeBlock options.blockSize).1.id = 0 := by
    simp only [BlockHeap.takeBlock, stack]
    rw [getD_eq_getElem?_getD, getElem?_map, getElem?_range (by omega)]
    simp only [Option.map_some, Option.getD_some]
    omega
  have htake := BlockHeap.takeBlock_free (s := stack) (Nat.le_of_eq hlen.symm) hblocks
    options.blockSize
  have hperm : (0 :: (stack.takeBlock options.blockSize).2.free).Perm stack.free := by
    rw [htake, hlast]
    exact (perm_append_singleton _ _).symm
  have hacq := (hbal.perm_free hperm).acquire
  have hhandle : (stack.takeBlock options.blockSize).1.handle = {⟨0, stack.nextRef⟩} := by
    rw [← hlast]
    rfl
  let m : BlockManagerImpl :=
    { options := options
      heap := (stack.takeBlock options.blockSize).2
      paddingBlock := (stack.takeBlock options.blockSize).1
      prefixCache := { blockSize := options.blockSize } }
  refine ⟨m, ?_, ?_, rfl, rfl, rfl⟩
  · rw [BlockManagerImpl.create, if_neg (by omega), if_neg (by omega)]
    exact if_pos hlast
  · have hempty : handles m.prefixCache.entries + 0 = 0 := rfl
    refine ⟨PrefixCache.wf_empty _, ?_, hlen, rfl, hsize⟩
    rw [hempty]
    refine ⟨?_, hlast, rfl, by simp, ?_⟩
    · have hall : m.paddingBlock.handle + 0 = ⟨0, stack.nextRef⟩ ::ₘ 0 := by
        exact hhandle
      rw [hall]
      exact hacq
    · show options.numBlocks - 1 ≤ stack.freeBlocks.length
      omega

theorem of_create {options : Options} (hm : BlockManagerImpl.create options = .ok m) :
    Sound m 0 ∧ m.options = options ∧ m.numUsedBlocks = 0 ∧ m.prefixCache.entries = [] := by
  have hblocks : 0 < options.numBlocks := by
    refine Nat.pos_of_ne_zero fun hz => ?_
    rw [BlockManagerImpl.create, if_pos hz] at hm
    cases hm
  have hsize : 0 < options.blockSize := by
    refine Nat.pos_of_ne_zero fun hz => ?_
    rw [BlockManagerImpl.create, if_neg hblocks.ne', if_pos hz] at hm
    cases hm
  obtain ⟨m', hm', hcreated⟩ := create hblocks hsize
  rw [hm] at hm'
  cases hm'
  exact hcreated

structure Swept (m m' : BlockManagerImpl) (k : Nat) : Prop where
  options_eq : m'.options = m.options
  padding_eq : m'.paddingBlock = m.paddingBlock
  used_eq : m'.numUsedBlocks = m.numUsedBlocks
  entries_eq : m'.prefixCache.entries =
    (Lru.sweep m.heap.isShared k m.prefixCache.entries).1
  numFree_eq : m'.heap.numFreeBlocks = m.heap.numFreeBlocks +
    (Lru.sweep m.heap.isShared k m.prefixCache.entries).2.countP (·.refCount.isSome)

theorem swept_zero (m : BlockManagerImpl) : Swept m m 0 := by
  constructor <;> simp [Lru.sweep_zero]

theorem hasEnoughBlocks (h : Sound m live) (n : Nat) :
    Yields (m.hasEnoughBlocks n) (fun r => Sound r.2 live ∧
      (∃ k, Swept m r.2 k ∧ (r.1 = true → n % 2 ^ 32 ≤ r.2.heap.numFreeBlocks)) ∧
      ((∀ b ∈ m.prefixCache.entries, b.refCount.isSome) →
        (r.1 = true ↔ n % 2 ^ 32 ≤ m.available))) := by
  rw [BlockManagerImpl.hasEnoughBlocks, BlockManagerImpl.available]
  by_cases hfree : n % 2 ^ 32 ≤ m.heap.numFreeBlocks
  · rw [if_pos hfree]
    exact ⟨h, ⟨0, swept_zero m, fun _ => hfree⟩,
      fun _ => iff_of_true rfl (hfree.trans (Nat.le_add_right _ _))⟩
  rw [if_neg hfree]
  by_cases hcache : m.options.enablePrefixCache
  · rw [if_neg (by simp [hcache])]
    have hwf := (PrefixCache.evict_ensures h.wf m.heap (n % 2 ^ 32 - m.heap.numFreeBlocks)).and
      (PrefixCache.evict_owned h.wf (n % 2 ^ 32 - m.heap.numFreeBlocks) h.owned)
    refine (hwf.mono (fun _ he => he.2) fun _ hr => hr).bind fun r hr => ?_
    obtain ⟨⟨gone, hgone, -, -⟩, hentries, hcount, howned, hlen, hnum⟩ := hr
    rw [Lru.length_sweep] at hcount
    let m' : BlockManagerImpl := { m with prefixCache := r.cache, heap := r.heap }
    have hsound : Sound m' live :=
      ⟨hgone.wf, howned, hlen.trans h.numBlocks_eq, hgone.blockSize_eq.trans h.blockSize_eq,
        h.blockSize_pos⟩
    have hswept : Swept m m' (n % 2 ^ 32 - m.heap.numFreeBlocks) :=
      ⟨rfl, rfl, rfl, hentries, hnum⟩
    simp only [if_pos hcache]
    split
    · exact ⟨hsound, ⟨_, hswept, by simp⟩, fun _ => iff_of_false (by simp) (by omega)⟩
    · refine ⟨hsound, ⟨_, hswept, fun he => of_decide_eq_true he⟩, fun hvalid => ?_⟩
      refine iff_of_true (decide_eq_true ?_) (by omega)
      -- Every evicted block was valid, so each of them has been freed.
      have hall := List.countP_eq_length.mpr fun b hb =>
        hvalid b ((Lru.sweep_perm m.heap.isShared
          (n % 2 ^ 32 - m.heap.numFreeBlocks) m.prefixCache.entries).subset
          (mem_append_left _ hb))
      rw [Lru.length_sweep] at hall
      omega
  · rw [if_pos (by simp [hcache])]
    exact ⟨h, ⟨0, swept_zero m, by simp⟩,
      fun _ => iff_of_false (by simp) (by simpa [hcache] using hfree)⟩

/-- The outcome of `allocate(n)`: `k` blocks may have been evicted, and the
returned blocks are new to everybody. -/
structure Allocated (m : BlockManagerImpl) (live : Multiset (Handle Int)) (n : Nat)
    (bs : List Block) (m' : BlockManagerImpl) : Prop where
  sound : Sound m' (handles bs + live)
  length_eq : bs = [] ∨ bs.length = n
  options_eq : m'.options = m.options
  padding_eq : m'.paddingBlock = m.paddingBlock
  used_eq : m'.numUsedBlocks = m.numUsedBlocks + bs.length
  swept : ∃ k, m'.prefixCache.entries =
      (Lru.sweep m.heap.isShared k m.prefixCache.entries).1 ∧
    m'.heap.numFreeBlocks + bs.length = m.heap.numFreeBlocks +
      (Lru.sweep m.heap.isShared k m.prefixCache.entries).2.countP (·.refCount.isSome)
  valid : ∀ b ∈ bs, b.refCount.isSome
  size_eq : ∀ b ∈ bs, b.size = m.options.blockSize
  fresh : ∀ b ∈ bs, m'.heap.refCount b = 1
  enough : (∀ b ∈ m.prefixCache.entries, b.refCount.isSome) →
    (bs.length = n ↔ n % 2 ^ 32 ≤ m.available)

/-- `allocate` fails its check for counts beyond 32 bits only. -/
theorem allocate (h : Sound m live) (n : Nat) :
    Ensures (m.allocate n) (fun e => e = .notEnoughBlocks ∧ 2 ^ 32 ≤ n)
      (fun r => Allocated m live n r.1 r.2) := by
  refine (h.hasEnoughBlocks n).total.bind fun r hr => ?_
  obtain ⟨enough, m₁⟩ := r
  obtain ⟨hsound, ⟨k, hswept, henough⟩, havailable⟩ := hr
  simp only at hsound hswept henough havailable ⊢
  by_cases hgo : enough = true
  · rw [if_neg (by simp [hgo])]
    by_cases hn : n ≤ m₁.heap.numFreeBlocks
    · rw [if_pos hn]
      obtain ⟨howned, htaken⟩ := hsound.owned.takeBlocks m₁.options.blockSize hn
      have hlen := htaken.length_eq
      have hfresh : ∀ b ∈ (m₁.heap.takeBlocks m₁.options.blockSize n).1,
          (m₁.heap.takeBlocks m₁.options.blockSize n).2.refCount b = 1 :=
        fun b hb => htaken.refCount_eq_one hsound.owned howned hb
      refine ⟨⟨hsound.wf, ?_, ?_, hsound.blockSize_eq, hsound.blockSize_pos⟩, .inr hlen,
        hswept.options_eq, hswept.padding_eq, ?_, ⟨k, hswept.entries_eq, ?_⟩, htaken.valid, ?_,
        hfresh, ?_⟩
      · rw [add_left_comm]
        exact howned
      · exact (congrArg List.length htaken.freeBlocks_eq).trans hsound.numBlocks_eq
      · rw [hlen, ← hswept.used_eq]
      · rw [hlen, ← hswept.numFree_eq]
        exact htaken.numFree_eq
      · rw [← hswept.options_eq]
        exact htaken.size_eq
      · intro hvalid
        exact iff_of_true hlen ((havailable hvalid).mp hgo)
    · rw [if_neg hn]
      refine ⟨rfl, Nat.le_of_not_lt fun hlt => hn ?_⟩
      have := henough hgo
      rwa [Nat.mod_eq_of_lt hlt] at this
  · rw [if_pos (by simpa using hgo)]
    refine ⟨by simpa using hsound, .inl rfl, hswept.options_eq, hswept.padding_eq,
      hswept.used_eq, ⟨k, hswept.entries_eq, hswept.numFree_eq⟩, by simp, by simp, by simp, ?_⟩
    intro hvalid
    have hiff := havailable hvalid
    refine iff_of_false ?_ fun hle => hgo (hiff.mpr hle)
    intro hzero
    refine hgo (hiff.mpr ?_)
    rw [← hzero]
    exact Nat.zero_le _

theorem allocateOne (h : Sound m live) :
    Ensures m.allocateOne (fun e => e = .noMoreBlocks)
      (fun r => Sound r.2 (r.1.handle + live) ∧ r.2.options = m.options) := by
  rw [BlockManagerImpl.allocateOne]
  split
  · rename_i hpos
    have htake := h.owned.takeBlock hpos m.options.blockSize
    rw [add_left_comm] at htake
    exact ⟨⟨h.wf, htake, h.numBlocks_eq, h.blockSize_eq, h.blockSize_pos⟩, rfl⟩
  · exact rfl

/-- `deallocate` subtracts the releasable blocks, and stops the process when the
counter does not cover them. -/
theorem deallocateLoop_eq (m : BlockManagerImpl) (bs : List Block) (used : Nat) :
    m.deallocateLoop bs used =
      if bs.countP m.releasable ≤ used then .ok (used - bs.countP m.releasable)
      else .error .blockAlreadyReleased := by
  induction bs generalizing used with
  | nil => simp [BlockManagerImpl.deallocateLoop]
  | cons b bs ih =>
      rw [BlockManagerImpl.deallocateLoop, countP_cons]
      by_cases hb : m.releasable b
      · rw [if_pos hb, if_pos hb]
        by_cases hzero : used = 0
        · rw [if_pos hzero, if_neg (by omega)]
        · rw [if_neg hzero, ih]
          by_cases hle : bs.countP m.releasable ≤ used - 1
          · rw [if_pos hle, if_pos (by omega)]
            congr 1
            omega
          · rw [if_neg hle, if_neg (by omega)]
      · rw [if_neg hb, if_neg hb, ih, Nat.add_zero]

/-- `deallocate` counts the blocks down and may find one already released. -/
theorem deallocate (h : Sound m live) (bs : List Block) :
    Ensures (m.deallocate bs)
      (fun e => e = .blockAlreadyReleased ∧ m.options.enablePrefixCache = true ∧
        m.numUsedBlocks < bs.countP m.releasable)
      (fun m' => Sound m' live ∧ (∃ used, m' = { m with numUsedBlocks := used }) ∧
        (m.options.enablePrefixCache = true →
          m'.numUsedBlocks + bs.countP m.releasable = m.numUsedBlocks)) := by
  have hset : ∀ used, Sound { m with numUsedBlocks := used } live := fun used =>
    ⟨h.wf, h.owned, h.numBlocks_eq, h.blockSize_eq, h.blockSize_pos⟩
  rw [BlockManagerImpl.deallocate]
  split
  · rename_i hcache
    rw [deallocateLoop_eq]
    split
    · rename_i hle
      exact ⟨hset _, ⟨_, rfl⟩, fun _ => Nat.sub_add_cancel hle⟩
    · rename_i hlt
      exact ⟨rfl, hcache, Nat.lt_of_not_le hlt⟩
  · rename_i hcache
    exact ⟨hset _, ⟨_, rfl⟩, fun he => absurd he hcache⟩

theorem of_stored {blocks : List Block} {r : PrefixCache.Inserted} (h : Sound m live)
    (hblocks : ∀ b ∈ blocks, b.handle ≤ live)
    (hr : PrefixCache.Stored m.prefixCache m.heap blocks r) :
    Sound { m with prefixCache := r.cache, heap := r.heap } live := by
  have hperm := hr.perm h.wf
  have hstored : ∀ b ∈ Lru.walkStored Block.hashValue blocks ⟨m.prefixCache.entries, []⟩,
      b.handle ≤ handles m.prefixCache.entries + live := fun b hb =>
    (hblocks b ((Lru.walkStored_sublist _ _).subset hb)).trans (Multiset.le_add_left _ _)
  have howned := h.owned.incAll hstored
  rw [← hr.heap_eq, ← add_assoc, ← handles_append, ← handles_perm hperm] at howned
  refine ⟨hr.wf, howned, ?_, hr.blockSize_eq.trans h.blockSize_eq, h.blockSize_pos⟩
  rw [hr.heap_eq, BlockHeap.incAll_freeBlocks]
  exact h.numBlocks_eq

theorem cacheBlocks (h : Sound m live) {blocks : List Block}
    (hblocks : ∀ b ∈ blocks, b.handle ≤ live) :
    Sound (m.cacheBlocks blocks) live ∧ (m.cacheBlocks blocks).options = m.options := by
  rw [BlockManagerImpl.cacheBlocks]
  split
  · exact ⟨h.of_stored (fun b hb => hblocks b (mem_of_mem_filter hb))
      (PrefixCache.insertBlocks_stored h.wf m.heap blocks), rfl⟩
  · exact ⟨h, rfl⟩

section

variable [XXH3]

structure Shared (m : BlockManagerImpl) (live : Multiset (Handle Int)) (tokenIds : List Token)
    (existed : List Block) (bs : List Block) (m' : BlockManagerImpl) : Prop where
  sound : Sound m' (handles bs + live)
  options_eq : m'.options = m.options
  padding_eq : m'.paddingBlock = m.paddingBlock
  blocks_eq : bs =
    if m.options.enablePrefixCache then m.prefixCache.matched tokenIds existed else []
  used_eq : m'.numUsedBlocks =
    m.numUsedBlocks + bs.countP fun b => m'.heap.refCount b ≤ 2
  heap_eq : m'.heap = m.heap.incAll bs
  entries_eq : m'.prefixCache.entries = if m.options.enablePrefixCache then
    (Lru.walkMatch Block.hashValue (m.prefixCache.matchKeys tokenIds existed)
      ⟨m.prefixCache.entries, []⟩).all else m.prefixCache.entries
  entries_perm : m'.prefixCache.entries.Perm m.prefixCache.entries

theorem allocateShared (h : Sound m live) (tokenIds : List Token) {existed : List Block}
    (hexisted : ∀ b ∈ existed, b.handle ≤ live) :
    Ensures (m.allocateShared tokenIds existed)
      (fun e => e = .keyBufferTooSmall ∧ ¬KeyFits m.options.blockSize)
      (fun r => Shared m live tokenIds existed r.1 r.2) := by
  rw [BlockManagerImpl.allocateShared]
  by_cases hcache : m.options.enablePrefixCache
  · rw [if_pos hcache]
    have hmatch := PrefixCache.matchTokens_ensures h.wf m.heap tokenIds existed
    rw [h.blockSize_eq] at hmatch
    refine hmatch.bind fun r hr => ?_
    obtain ⟨hblocks, hwf, hsize, hentries, hheap⟩ := hr
    have hperm : r.2.1.entries.Perm m.prefixCache.entries := by
      rw [hentries]
      exact h.wf.walkMatch_perm _
    have hheld : ∀ b ∈ m.prefixCache.matched tokenIds existed,
        b.handle ≤ handles m.prefixCache.entries + live := by
      intro b hb
      rw [PrefixCache.matched] at hb
      split at hb
      · cases hb
      · rcases List.mem_append.mp hb with hb | hb
        · exact (hexisted b hb).trans (Multiset.le_add_left _ _)
        · exact (handle_le_handles (Lru.mem_of_mem_hits hb)).trans (Multiset.le_add_right _ _)
    have howned := h.owned.incAll hheld
    rw [← hheap, ← hblocks, add_left_comm, ← handles_perm hperm] at howned
    have hlen : r.2.2.freeBlocks.length = m.options.numBlocks := by
      rw [hheap, BlockHeap.incAll_freeBlocks]
      exact h.numBlocks_eq
    have hblocks' : r.1 = if m.options.enablePrefixCache then
        m.prefixCache.matched tokenIds existed else [] := by rw [if_pos hcache, hblocks]
    refine ⟨⟨hwf, howned, hlen, hsize, h.blockSize_pos⟩, rfl, rfl, hblocks', rfl, ?_, ?_, hperm⟩
    · rw [hblocks]
      exact hheap
    · rw [if_pos hcache]
      exact hentries
  · rw [if_neg hcache]
    refine ⟨by simpa using h, rfl, rfl, ?_, rfl, rfl, ?_, .refl _⟩ <;> rw [if_neg hcache]

structure Cached (m : BlockManagerImpl) (live : Multiset (Handle Int)) (tokenIds : List Token)
    (blocks : List Block) (existedNum : Nat) (bs : List Block) (m' : BlockManagerImpl) : Prop where
  sound : Sound m' live
  options_eq : m'.options = m.options
  padding_eq : m'.paddingBlock = m.paddingBlock
  used_eq : m'.numUsedBlocks = m.numUsedBlocks
  blocks_eq : bs = if m.options.enablePrefixCache then
    m.prefixCache.restamped tokenIds blocks existedNum else blocks
  existed_le : m.options.enablePrefixCache = true →
    0 < m.prefixCache.insertCount tokenIds blocks →
    existedNum ≤ m.prefixCache.insertCount tokenIds blocks
  numFree_eq : m'.heap.numFreeBlocks = m.heap.numFreeBlocks
  entries_eq : m'.prefixCache.entries = if m.options.enablePrefixCache then
    (Lru.walkStore Block.hashValue (m.prefixCache.stamped tokenIds blocks existedNum)
      ⟨m.prefixCache.entries, []⟩).all else m.prefixCache.entries

theorem handle_le_of_mem_stamped {tokenIds : List Token} {blocks : List Block} {existedNum : Nat}
    {c : PrefixCache} (hblocks : ∀ b ∈ blocks, b.handle ≤ live) {b : Block}
    (hb : b ∈ c.stamped tokenIds blocks existedNum) : b.handle ≤ live := by
  obtain ⟨a, ha, hcore⟩ := PrefixCache.exists_of_mem_stamped hb
  rw [← Block.handle_eq_of_core hcore]
  exact hblocks a ha

theorem cache (h : Sound m live) (tokenIds : List Token) {blocks : List Block} (existedNum : Nat)
    (hblocks : ∀ b ∈ blocks, b.handle ≤ live) :
    Ensures (m.cache tokenIds blocks existedNum)
      (fun e => e = .sharedBeyondCached ∧
          m.prefixCache.insertCount tokenIds blocks < existedNum ∧
          0 < m.prefixCache.insertCount tokenIds blocks ∨
        e = .keyBufferTooSmall ∧ ¬KeyFits m.options.blockSize)
      (fun r => Cached m live tokenIds blocks existedNum r.1 r.2) := by
  rw [BlockManagerImpl.cache]
  by_cases hcache : m.options.enablePrefixCache
  · rw [if_pos hcache]
    have hinsert := PrefixCache.insert_ensures h.wf m.heap tokenIds blocks existedNum
    rw [h.blockSize_eq] at hinsert
    refine hinsert.bind fun r hr => ?_
    obtain ⟨hout, -, hle, hstored⟩ := hr
    refine ⟨h.of_stored (fun b hb => handle_le_of_mem_stamped hblocks hb) hstored, rfl, rfl, rfl,
      ?_, fun _ => hle, ?_, ?_⟩
    · rw [if_pos hcache, hout]
    · show r.heap.numFreeBlocks = _
      rw [hstored.heap_eq, BlockHeap.incAll_numFreeBlocks]
    · rw [if_pos hcache]
      exact hstored.entries_eq
  · rw [if_neg hcache]
    refine ⟨h, rfl, rfl, rfl, ?_, fun he => absurd he hcache, rfl, ?_⟩ <;> rw [if_neg hcache]

end

end Sound

end Xllm
