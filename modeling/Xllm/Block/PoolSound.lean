import Xllm.Block.Pool

/-!
# Contracts of the pool

`p.Sound rest hostRest` says that the device handles are those of the sequence
being served and `rest`, and the host handles those of the sequence and
`hostRest`: the other sequences are the context of a call, and no call can change
it. Each member of the pool has a contract that names the state it leaves, in
terms of the contracts of the manager.
-/

namespace Xllm

open Contract Ledger

namespace Serving

variable {p : Serving} {rest hostRest : Multiset (Handle Int)}

/-- The live handles of a rank are those of the served sequence and the context's. -/
structure Sound (p : Serving) (rest hostRest : Multiset (Handle Int)) : Prop where
  device : Xllm.Sound p.rank.blockManager (p.sequence.kvState.handles + rest)
  host : Xllm.Sound p.rank.hostBlockManager (p.sequence.hostKvState.handles + hostRest)

theorem kvBlocks_le (p : Serving) (rest : Multiset (Handle Int)) :
    ∀ b ∈ p.sequence.kvState.blocks, b.handle ≤ p.sequence.kvState.handles + rest := fun _ hb =>
  ((handle_le_handles hb).trans (Multiset.le_add_right _ _)).trans (Multiset.le_add_right _ _)

theorem existed_le (p : Serving) (rest : Multiset (Handle Int)) :
    ∀ b ∈ p.existedSharedBlocks, b.handle ≤ p.sequence.kvState.handles + rest := by
  intro b hb
  rw [existedSharedBlocks] at hb
  split at hb
  · cases hb
  · exact kvBlocks_le p rest b (List.mem_of_mem_take hb)

theorem sound_setHeap {m : BlockManagerImpl} {live live' : Multiset (Handle Int)}
    {heap : BlockHeap} (h : Xllm.Sound m live)
    (owned : Owned heap m.paddingBlock (Xllm.handles m.prefixCache.entries + live'))
    (hlen : heap.freeBlocks.length = m.heap.freeBlocks.length) :
    Xllm.Sound { m with heap := heap } live' :=
  ⟨h.wf, owned, hlen.trans h.numBlocks_eq, h.blockSize_eq, h.blockSize_pos⟩

theorem resetSequence_ensures (h : p.Sound rest hostRest) : Yields p.resetSequence (fun p' =>
      (∃ device host, p' =
        ⟨{ p.rank with
            blockManager := { p.rank.blockManager with heap := device }
            hostBlockManager := { p.rank.hostBlockManager with heap := host } },
          p.sequence.released⟩) ∧ p'.Sound rest hostRest) := by
  have hdevice := h.device.owned
  have hhost := h.host.owned
  rw [add_left_comm] at hdevice hhost
  refine (Sequence.reset_ensures hdevice hhost).bind fun r hr => ?_
  obtain ⟨hseq, ⟨hd, hdlen⟩, ho, holen⟩ := hr
  rw [add_left_comm] at hd ho
  refine ⟨⟨r.2.1, r.2.2, by rw [hseq]⟩, ?_, ?_⟩
  · rw [hseq]
    exact sound_setHeap h.device hd hdlen
  · rw [hseq]
    exact sound_setHeap h.host ho holen

inductive Embedded (p : Serving) : Bool → Serving → Prop
  | had (h : p.sequence.hasEmbeddingId = true) : Embedded p true p
  | full (h : p.sequence.hasEmbeddingId = false) : Embedded p false p
  | taken (h : p.sequence.hasEmbeddingId = false) (b : Block) (m : EmbeddingManager)
      (hm : p.rank.embeddingManager.allocate = .ok (some b, m)) :
      Embedded p true
        ⟨{ p.rank with embeddingManager := m }, { p.sequence with embeddingBlock := b }⟩

/-- A sequence has its embedding id already, takes one, or finds none. -/
theorem allocateEmbeddingId_ensures (p : Serving) :
    Ensures p.allocateEmbeddingId (fun e => e = .embeddingIds) (fun r => Embedded p r.1 r.2) := by
  rw [allocateEmbeddingId]
  split
  · rename_i hhas
    exact .had hhas
  · rename_i hhas
    have hnone : p.sequence.hasEmbeddingId = false := by simpa using hhas
    cases halloc : p.rank.embeddingManager.allocate with
    | error e =>
        rw [EmbeddingManager.allocate] at halloc
        simp only at halloc
        split_ifs at halloc
        cases halloc
        exact rfl
    | ok r =>
        obtain ⟨block, m⟩ := r
        cases block with
        | none =>
            have hm : m = p.rank.embeddingManager := by
              rw [EmbeddingManager.allocate] at halloc
              simp only at halloc
              split_ifs at halloc <;> cases halloc
              rfl
            subst hm
            exact .full hnone
        | some b => exact .taken hnone b m halloc

theorem Embedded.eq_setEmbedding {ok : Bool} {p' : Serving} (h : Embedded p ok p') :
    ∃ m b, p' = ⟨{ p.rank with embeddingManager := m },
      { p.sequence with embeddingBlock := b }⟩ := by
  cases h with
  | had h => exact ⟨p.rank.embeddingManager, p.sequence.embeddingBlock, rfl⟩
  | full h => exact ⟨p.rank.embeddingManager, p.sequence.embeddingBlock, rfl⟩
  | taken h b m hm => exact ⟨m, b, rfl⟩

theorem Embedded.sound {ok : Bool} {p' : Serving} (h : Embedded p ok p')
    (hp : p.Sound rest hostRest) : p'.Sound rest hostRest := by
  obtain ⟨m, b, rfl⟩ := h.eq_setEmbedding
  exact ⟨hp.device, hp.host⟩

/-- The state after the embedding id has been given up. -/
def withoutEmbedding (p : Serving) (m : EmbeddingManager) : Serving :=
  ⟨{ p.rank with embeddingManager := m },
    { p.sequence with embeddingBlock := p.sequence.embeddingBlock.movedFrom }⟩

theorem deallocateEmbeddingId_ensures (h : p.Sound rest hostRest) :
    Ensures p.deallocateEmbeddingId (fun e => e = .embeddingIds) (fun p' =>
      (∃ m, p.rank.embeddingManager.release p.sequence.embeddingBlock = .ok m ∧
        p' = p.withoutEmbedding m) ∧ p'.Sound rest hostRest) := by
  have hrelease : Ensures (p.rank.embeddingManager.release p.sequence.embeddingBlock)
      (fun e => e = .embeddingIds) (fun _ => True) := by
    rw [EmbeddingManager.release]
    split
    · refine Ensures.bind (Q := fun _ => True) ?_ fun m _ => ?_
      · rw [EmbeddingManager.deallocate]
        split_ifs <;> simp
      · rw [EmbeddingManager.decRefCount]
        split
        · exact trivial
        · simp only [EmbeddingManager.free]
          split_ifs <;> simp
    · exact trivial
  rw [deallocateEmbeddingId]
  cases hm : p.rank.embeddingManager.release p.sequence.embeddingBlock with
  | error e =>
      rw [hm] at hrelease
      exact hrelease
  | ok m => exact ⟨⟨m, rfl, rfl⟩, h.device, h.host⟩

theorem checkShared_ensures : Ensures p.checkShared
    (fun e => e = .sliceOutOfRange ∧
      p.sequence.kvState.numKvBlocks < p.sequence.kvState.numOwnedSharedBlocks)
    (fun _ => p.rank.blockManager.options.enablePrefixCache = true →
      p.sequence.kvState.numOwnedSharedBlocks ≤ p.sequence.kvState.numKvBlocks) := by
  rw [checkShared]
  split
  · rename_i hle
    exact hle
  · rename_i hlt
    push Not at hlt
    exact ⟨rfl, hlt.2⟩

section Shared

variable [XXH3]

/-- The outcome of `allocate_shared` for a sequence: the manager matched `blocks`,
and the sequence took them over. -/
structure SharedBy (p : Serving) (rest hostRest : Multiset (Handle Int)) (blocks : List Block)
    (m : BlockManagerImpl) (p' : Serving) : Prop where
  shared : Xllm.Sound.Shared p.rank.blockManager (p.sequence.kvState.handles + rest)
    p.sequence.tokens p.existedSharedBlocks blocks m
  state_eq : ∃ heap, p' = (p.setManager { m with heap := heap }).setKvState
    (p.sequence.kvState.withShared blocks p.sequence.numTokens)
  sound : p'.Sound rest hostRest

/-- The matched blocks fall short of the tokens, or end with them. -/
def SharedFits (p : Serving) (blocks : List Block) : Prop :=
  blocks.length * KVCacheState.headSize blocks < p.sequence.numTokens ∨
    blocks.length * KVCacheState.headSize blocks = p.sequence.numTokens ∧
      0 < KVCacheState.headSize blocks ∧ 0 < p.sequence.numTokens

/-- What `allocate_shared` can fail, and the blocks it shares otherwise. -/
theorem allocateShared_ensures (h : p.Sound rest hostRest) :
    Ensures p.allocateShared
      (fun e => e = .sliceOutOfRange ∧
          p.sequence.kvState.numKvBlocks < p.sequence.kvState.numOwnedSharedBlocks ∨
        e = .keyBufferTooSmall ∧ ¬KeyFits p.blockSize ∨
        (e = .sharedTokensNotBelowTotal ∨ e = .zeroBlockSize) ∧
          p.rank.blockManager.options.enablePrefixCache = true ∧
          ¬p.SharedFits
            (p.rank.blockManager.prefixCache.matched p.sequence.tokens p.existedSharedBlocks))
      (fun p' => ∃ blocks m, p.SharedBy rest hostRest blocks m p') := by
  rw [allocateShared]
  have hshared := h.device.allocateShared p.sequence.tokens (existed_le p rest)
  by_cases hcache : p.rank.blockManager.options.enablePrefixCache = true
  · rw [if_pos hcache]
    refine (checkShared_ensures.mono (fun e he => .inl he) fun _ hu => hu).bind fun _ _ => ?_
    refine (hshared.mono (fun e he => .inr (.inl he)) fun r hr => hr).bind fun r hr => ?_
    obtain ⟨blocks, m⟩ := r
    have hblocks := hr.blocks_eq
    rw [if_pos hcache] at hblocks
    have howned := hr.sound.owned
    rw [add_left_comm, ← add_assoc (handles m.prefixCache.entries),
      add_comm (handles m.prefixCache.entries), add_assoc] at howned
    have hadd := KVCacheState.addSharedKvBlocks_ensures blocks p.sequence.numTokens howned
    rw [← hblocks]
    refine (hadd.mono (fun e he => .inr (.inr ⟨he.1, hcache, he.2⟩)) fun _ hq => hq).bind
      fun q hq => ?_
    · obtain ⟨hkv, hown, hlen⟩ := hq
      refine ⟨blocks, m, hr, ⟨q.2, by rw [hkv]; rfl⟩, ?_, h.host⟩
      rw [add_left_comm] at hown
      rw [hkv]
      exact sound_setHeap hr.sound hown hlen
  · rw [if_neg hcache]
    rw [BlockManagerImpl.allocateShared, if_neg hcache] at hshared
    have hnil : p.sequence.kvState.withShared [] p.sequence.numTokens = p.sequence.kvState := by
      simp [KVCacheState.withShared]
    exact ⟨[], p.rank.blockManager, hshared, ⟨p.rank.blockManager.heap, by rw [hnil]; rfl⟩, h⟩

structure CachedBy (p : Serving) (rest hostRest : Multiset (Handle Int)) (blocks : List Block)
    (m : BlockManagerImpl) (p' : Serving) : Prop where
  cached : Xllm.Sound.Cached p.rank.blockManager (p.sequence.kvState.handles + rest)
    p.sequence.computedTokens p.sequence.kvState.blocks p.sequence.kvState.numOwnedSharedBlocks
    blocks m
  state_eq : p' = (p.setManager m).setKvState { p.sequence.kvState with blocks := blocks }
  core_eq : blocks.map Block.core = p.sequence.kvState.blocks.map Block.core
  sound : p'.Sound rest hostRest

/-- What `cache` can fail; otherwise the handles stay and the cache holds its own. -/
theorem cache_ensures (h : p.Sound rest hostRest) :
    Ensures p.cache
      (fun e => e = .sliceOutOfRange ∧
          p.sequence.tokenBuffer.length < p.sequence.kvState.kvCacheTokensNum ∨
        e = .sharedBeyondCached ∧
          p.rank.blockManager.prefixCache.insertCount p.sequence.computedTokens
            p.sequence.kvState.blocks < p.sequence.kvState.numOwnedSharedBlocks ∧
          0 < p.rank.blockManager.prefixCache.insertCount p.sequence.computedTokens
            p.sequence.kvState.blocks ∨
        e = .keyBufferTooSmall ∧ ¬KeyFits p.blockSize)
      (fun p' => ∃ blocks m, p.CachedBy rest hostRest blocks m p') := by
  rw [cache, Sequence.cachedTokens]
  split
  swap
  · rename_i hlt
    exact .inl ⟨rfl, Nat.lt_of_not_le hlt⟩
  have hcache := h.device.cache p.sequence.computedTokens
    p.sequence.kvState.numOwnedSharedBlocks (kvBlocks_le p rest)
  refine (hcache.mono (fun e he => .inr he) fun r hr => hr).bind fun r hr => ?_
  have hcore : r.1.map Block.core = p.sequence.kvState.blocks.map Block.core := by
    rw [hr.blocks_eq]
    split
    · rename_i hcache
      exact PrefixCache.map_core_restamped (hr.existed_le hcache)
    · rfl
  refine ⟨r.1, r.2, hr, rfl, hcore, ?_, h.host⟩
  have hsame : KVCacheState.handles { p.sequence.kvState with blocks := r.1 } =
      p.sequence.kvState.handles := by
    simp only [KVCacheState.handles, handles_eq_of_core hcore]
  show Xllm.Sound r.2 (KVCacheState.handles { p.sequence.kvState with blocks := r.1 } + rest)
  rw [hsame]
  exact hr.sound

end Shared

section Beam

theorem kvProcessBeamSearch_ensures {kv : KVCacheState} {s : BlockHeap} {padding : Block}
    {live : Multiset (Handle Int)} (newBlock : Option Block)
    (o : Owned s padding (kv.handles + live)) : Yields (kv.processBeamSearch newBlock s) (fun r =>
      r.1 = { kv with
        blocks := match newBlock with
          | none => kv.srcBlocks
          | some b => kv.srcBlocks.dropLast ++ [b]
        srcBlocks := [] } ∧
      r.2.freeBlocks.length = s.freeBlocks.length ∧
      Owned r.2 padding ((match newBlock with
        | none => handles kv.srcBlocks
        | some _ => handles kv.srcBlocks.dropLast) + live)) := by
  rw [KVCacheState.handles, add_assoc] at o
  refine o.decAll.bind fun t ht => ?_
  cases newBlock with
  | none => exact ⟨rfl, ht.2, ht.1⟩
  | some b =>
      have hlast : kv.srcBlocks.dropLast ++ kv.srcBlocks.getLast?.toList = kv.srcBlocks := by
        cases hsrc : kv.srcBlocks with
        | nil => rfl
        | cons c cs =>
            exact List.dropLast_append_getLast (List.cons_ne_nil c cs)
      have hown := ht.1
      rw [← hlast, handles_append, add_comm (handles kv.srcBlocks.dropLast), add_assoc] at hown
      exact hown.decAll.bind fun u hu => ⟨rfl, hu.2.trans ht.2, hu.1⟩

inductive Beamed (p : Serving) (rest hostRest : Multiset (Handle Int)) (needSwap : Bool) :
    Bool → Serving → Prop
  | idle (h : p.sequence.checkBeamSearch = false ∨ p.sequence.kvState.srcBlocks = []) :
      Beamed p rest hostRest needSwap true p
  /-- The last block has to be copied and there is no block for the copy. -/
  | full (m : BlockManagerImpl) (hbeam : p.sequence.checkBeamSearch = true)
      (hsrc : p.sequence.kvState.srcBlocks ≠ [])
      (hswap : needSwap = true ∧ p.sequence.kvState.needSwap = true)
      (hm : Xllm.Sound.Allocated p.rank.blockManager (p.sequence.kvState.handles + rest) 1 [] m) :
      Beamed p rest hostRest needSwap false (p.setManager m)
  | swapped (b : Block) (m : BlockManagerImpl) (heap : BlockHeap)
      (hbeam : p.sequence.checkBeamSearch = true) (hsrc : p.sequence.kvState.srcBlocks ≠ [])
      (hswap : needSwap = true ∧ p.sequence.kvState.needSwap = true)
      (hm : Xllm.Sound.Allocated p.rank.blockManager (p.sequence.kvState.handles + rest) 1 [b] m) :
      Beamed p rest hostRest needSwap true
        ⟨{ p.rank with
            blockManager := { m with heap := heap }
            swapBlockTransferInfos := p.rank.swapBlockTransferInfos ++
              [((p.sequence.kvState.srcBlocks.getLast?.map Block.id).getD 0, b.id)] },
          { p.sequence with kvState := { p.sequence.kvState with
            blocks := p.sequence.kvState.srcBlocks.dropLast ++ [b], srcBlocks := [] } }⟩
  | taken (heap : BlockHeap) (hbeam : p.sequence.checkBeamSearch = true)
      (hsrc : p.sequence.kvState.srcBlocks ≠ [])
      (hswap : ¬(needSwap = true ∧ p.sequence.kvState.needSwap = true)) :
      Beamed p rest hostRest needSwap true ((p.setHeap heap).setKvState
        { p.sequence.kvState with blocks := p.sequence.kvState.srcBlocks, srcBlocks := [] })

/-- Every outcome of `process_beam_search`, its references counted. -/
theorem processBeamSearch_ensures (h : p.Sound rest hostRest) (needSwap : Bool) :
    Yields (p.processBeamSearch needSwap) (fun r =>
      Beamed p rest hostRest needSwap r.1 r.2 ∧ r.2.Sound rest hostRest) := by
  rw [processBeamSearch]
  by_cases hbeam : p.sequence.checkBeamSearch = true
  swap
  · rw [if_pos (by simpa using hbeam)]
    exact ⟨.idle (.inl (by simpa using hbeam)), h⟩
  rw [if_neg (by simp [hbeam])]
  by_cases hsrc : p.sequence.kvState.srcBlocks = []
  · rw [if_pos hsrc]
    exact ⟨.idle (.inr hsrc), h⟩
  rw [if_neg hsrc]
  by_cases hswap : needSwap = true ∧ p.sequence.kvState.needSwap = true
  · rw [if_pos (by simp [hswap])]
    have halloc : Yields (p.rank.blockManager.allocate 1) (fun r =>
        Xllm.Sound.Allocated p.rank.blockManager (p.sequence.kvState.handles + rest) 1 r.1 r.2) :=
      (h.device.allocate 1).mono (fun e he => absurd he.2 (by decide)) (fun r hr => hr)
    refine halloc.bind fun r hr => ?_
    obtain ⟨newBlocks, m⟩ := r
    have hmanager : (p.setManager m).Sound (handles newBlocks + rest) hostRest := by
      refine ⟨?_, h.host⟩
      have hsound := hr.sound
      rw [add_left_comm] at hsound
      exact hsound
    cases newBlocks with
    | nil =>
        refine ⟨.full m hbeam hsrc hswap hr, ?_⟩
        rw [handles_nil, zero_add] at hmanager
        exact hmanager
    | cons b bs =>
        have hbs : bs = [] := by
          have hlen := hr.length_eq.resolve_left (List.cons_ne_nil b bs)
          simpa using hlen
        subst hbs
        have howned := hmanager.device.owned
        rw [add_left_comm] at howned
        refine (kvProcessBeamSearch_ensures (some b) howned).bind fun q hq => ?_
        obtain ⟨kvState, heap⟩ := q
        obtain ⟨hkv, hlen, hown⟩ := hq
        subst hkv
        refine ⟨.swapped b m heap hbeam hsrc hswap hr, ?_, h.host⟩
        refine sound_setHeap hmanager.device ?_ hlen
        simp only [setKvState_kvState, setManager_sequence,
          KVCacheState.handles, handles_append, handles_nil, add_zero] at hown ⊢
        rw [add_left_comm] at hown
        rw [add_assoc (handles p.sequence.kvState.srcBlocks.dropLast)]
        exact hown
  · rw [if_neg (by simpa using hswap)]
    have howned := h.device.owned
    rw [add_left_comm] at howned
    refine (kvProcessBeamSearch_ensures none howned).bind fun q hq => ?_
    obtain ⟨kvState, heap⟩ := q
    obtain ⟨hkv, hlen, hown⟩ := hq
    subst hkv
    refine ⟨.taken heap hbeam hsrc hswap, ?_, h.host⟩
    refine sound_setHeap h.device ?_ hlen
    simp only [setKvState_kvState, KVCacheState.handles, handles_nil, add_zero] at hown ⊢
    rw [add_left_comm]
    exact hown

end Beam

section Allocate

/-- What the end of `deallocate` and a rollback do: the counter gives back the
blocks that are used by this sequence alone, and the sequence is reset. With
`embedding` the embedding id is given up too. -/
inductive Dropped (p : Serving) (embedding : Bool) : Serving → Prop
  | drop (used : Nat) (device host : BlockHeap) (m : EmbeddingManager)
      (hused : p.rank.blockManager.options.enablePrefixCache = true →
        used + p.sequence.kvState.blocks.countP p.rank.blockManager.releasable =
          p.rank.blockManager.numUsedBlocks)
      (hm : if embedding = true then
          p.rank.embeddingManager.release p.sequence.embeddingBlock = .ok m
        else m = p.rank.embeddingManager) :
      Dropped p embedding
        ⟨{ p.rank with
            blockManager := { p.rank.blockManager with numUsedBlocks := used, heap := device }
            hostBlockManager := { p.rank.hostBlockManager with heap := host }
            embeddingManager := m },
          { p.sequence.released with
            embeddingBlock := if embedding = true then p.sequence.embeddingBlock.movedFrom
              else p.sequence.embeddingBlock }⟩

/-- The errors of `Dropped`: the counter does not cover the blocks. -/
def Uncovered (p : Serving) (e : Check) : Prop :=
  e = .embeddingIds ∨ e = .blockAlreadyReleased ∧
    p.rank.blockManager.options.enablePrefixCache = true ∧
    p.rank.blockManager.numUsedBlocks <
      p.sequence.kvState.blocks.countP p.rank.blockManager.releasable

/-- `deallocate` leaves a sequence without blocks. -/
theorem drop_ensures (h : p.Sound rest hostRest) (embedding : Bool) :
    Ensures (p.drop embedding) p.Uncovered (fun p' =>
      Dropped p embedding p' ∧ p'.Sound rest hostRest) := by
  refine ((h.device.deallocate p.sequence.kvState.blocks).mono (fun e he => .inr he)
    fun _ hm => hm).bind fun m hm => ?_
  obtain ⟨hsound, ⟨used, rfl⟩, hused⟩ := hm
  have hset : (p.setManager { p.rank.blockManager with numUsedBlocks := used }).Sound
      rest hostRest := ⟨hsound, h.host⟩
  cases embedding with
  | false =>
      refine Ensures.mono_post (resetSequence_ensures hset).total fun p' hp => ?_
      obtain ⟨⟨device, host, rfl⟩, hsound'⟩ := hp
      exact ⟨.drop used device host _ hused rfl, hsound'⟩
  | true =>
      refine ((deallocateEmbeddingId_ensures hset).mono (fun e he => .inl he)
        fun _ hr => hr).bind fun p₁ hp₁ => ?_
      obtain ⟨⟨m, hm, rfl⟩, hsound₁⟩ := hp₁
      refine Ensures.mono_post (resetSequence_ensures hsound₁).total fun p' hp => ?_
      obtain ⟨⟨device, host, rfl⟩, hsound'⟩ := hp
      exact ⟨.drop used device host m hused hm, hsound'⟩

variable {E : Check → Prop} {Q : Bool × Serving → Prop}

/-- The blocks that `allocate` still asks the manager for. -/
def numAdditionalBlocks (p : Serving) (numTokens : Nat) : Nat :=
  ((numTokens + p.blockSize - 1) / p.blockSize - p.sequence.kvState.numKvBlocks) % 2 ^ 32

/-- `allocate` after the shared blocks: there are enough blocks, or the manager
has to add some and may fail to. -/
theorem allocateMore_rule {I : Serving → Prop} {numTokens : Nat} {startedEmpty needsId : Bool}
    (enough : (numTokens + p.blockSize - 1) / p.blockSize ≤ p.sequence.kvState.numKvBlocks →
      Ensures (p.processBeamSearch true) E Q)
    (beam : p.sequence.kvState.numKvBlocks < (numTokens + p.blockSize - 1) / p.blockSize →
      Ensures (p.processBeamSearch false) E (fun r => I r.2))
    (grow : ∀ q, I q → Ensures (q.rank.blockManager.allocate (p.numAdditionalBlocks numTokens)) E
      (fun r => if r.1.length = p.numAdditionalBlocks numTokens then
          Q (true, (q.setManager r.2).setKvState (q.sequence.kvState.addKvBlocks r.1))
        else Ensures ((q.setManager r.2).rollback startedEmpty needsId) E
          (fun q' => Q (false, q')))) :
    Ensures (p.allocateMore numTokens startedEmpty needsId) E Q := by
  rw [allocateMore]
  simp only
  split
  · rename_i hle
    exact enough hle
  · rename_i hlt
    refine (beam (Nat.lt_of_not_le hlt)).bind fun r hr => ?_
    refine (grow r.2 hr).bind fun b hb => ?_
    rw [numAdditionalBlocks] at hb
    split
    · rename_i hlen
      rw [if_pos hlen] at hb
      exact hb
    · rename_i hlen
      rw [if_neg hlen] at hb
      exact hb.bind fun q' hq => hq

variable [XXH3]

theorem deallocate_rule {I R : Serving → Prop} (hcache : Ensures p.cache E I)
    (hdrop : ∀ q, I q → Ensures (q.drop true) E R) : Ensures p.deallocate E R :=
  hcache.bind hdrop

theorem allocate_rule {I J : Serving → Prop} {numTokens : Nat}
    (embed : Ensures p.allocateEmbeddingId E (fun r =>
      if r.1 = true then I r.2 else Q (false, r.2)))
    (shared : ∀ q, I q → if p.sequence.kvState.numKvBlocks = 0 then
      Ensures q.allocateShared E J else J q)
    (more : ∀ q, J q → Ensures (q.allocateMore numTokens
      (decide (p.sequence.kvState.numKvBlocks = 0)) (!p.sequence.hasEmbeddingId)) E Q) :
    Ensures (p.allocate numTokens) E Q := by
  refine embed.bind fun r hr => ?_
  obtain ⟨ok, q⟩ := r
  cases ok with
  | false => exact hr
  | true =>
      have hq := shared q hr
      by_cases hempty : p.sequence.kvState.numKvBlocks = 0
      · rw [if_pos hempty] at hq
        simp only [hempty] at more ⊢
        exact hq.bind more
      · rw [if_neg hempty] at hq
        simp only [hempty] at more ⊢
        exact more q hq

/-- The sequence of `try_allocate` after the match. -/
def withTryShared (p : Serving) (blocks : List Block) : KVCacheState :=
  { p.sequence.kvState with
    blocks := p.sequence.kvState.blocks ++ blocks
    numOwnedSharedBlocks := p.sequence.kvState.numOwnedSharedBlocks + blocks.length }

/-- The first part of `try_allocate`: the matched vector and the copies in the
sequence both hold handles. -/
theorem tryShared_ensures (h : p.Sound rest hostRest) :
    Ensures p.tryShared
      (fun e => e = .sliceOutOfRange ∧
          p.sequence.kvState.numKvBlocks < p.sequence.kvState.numOwnedSharedBlocks ∨
        e = .keyBufferTooSmall ∧ ¬KeyFits p.blockSize)
      (fun r => ∃ m heap, Xllm.Sound.Shared p.rank.blockManager
          (p.sequence.kvState.handles + rest) p.sequence.tokens p.existedSharedBlocks r.1 m ∧
        heap = m.heap.incAll r.1 ∧
        r.2 = (p.setManager { m with heap := heap }).setKvState (p.withTryShared r.1) ∧
        r.2.Sound (handles r.1 + rest) hostRest) := by
  have hshared := h.device.allocateShared p.sequence.tokens (existed_le p rest)
  refine (checkShared_ensures.mono (fun e he => .inl he) fun _ hu => hu).bind fun _ hle => ?_
  refine (hshared.mono (fun e he => .inr he) fun r hr => hr).bind fun r hr => ?_
  obtain ⟨blocks, m⟩ := r
  simp only at hr ⊢
  have hkv : p.sequence.kvState.addTryShared blocks = .ok (p.withTryShared blocks) := by
    rw [KVCacheState.addTryShared]
    split
    · rename_i hnil
      subst hnil
      simp [withTryShared]
    · rename_i hne
      have hcache : p.rank.blockManager.options.enablePrefixCache = true := by
        by_contra hoff
        exact hne (by rw [hr.blocks_eq, if_neg hoff])
      have hroom := hle hcache
      rw [KVCacheState.incrSharedKvBlocksNum, if_pos]
      · rfl
      · simp only [KVCacheState.addKvBlocks, KVCacheState.numKvBlocks, List.length_append]
          at hroom ⊢
        omega
  rw [hkv]
  refine ⟨m, _, hr, rfl, rfl, ?_, h.host⟩
  have hheld : ∀ b ∈ blocks, b.handle ≤
      handles m.prefixCache.entries + (handles blocks + (p.sequence.kvState.handles + rest)) :=
    fun b hb => ((handle_le_handles hb).trans (Multiset.le_add_right _ _)).trans
      (Multiset.le_add_left _ _)
  have howned := hr.sound.owned.incAll hheld
  refine sound_setHeap hr.sound ?_ (by simp)
  have hall : (p.withTryShared blocks).handles = handles blocks + p.sequence.kvState.handles := by
    simp only [withTryShared, KVCacheState.handles, handles_append]
    abel
  simp only [setKvState_kvState]
  rw [hall, add_assoc (handles blocks), add_left_comm p.sequence.kvState.handles,
    add_left_comm (handles m.prefixCache.entries)]
  exact howned

omit [XXH3] in
theorem allocate_device_ensures (h : p.Sound rest hostRest) (n : Nat) :
    Ensures (p.rank.blockManager.allocate n) (fun e => e = .notEnoughBlocks ∧ 2 ^ 32 ≤ n)
      (fun r => Xllm.Sound.Allocated p.rank.blockManager (p.sequence.kvState.handles + rest) n
          r.1 r.2 ∧
        ((p.setManager r.2).setKvState
          (p.sequence.kvState.addKvBlocks r.1)).Sound rest hostRest) := by
  refine (h.device.allocate n).mono_post fun r hr => ⟨hr, ?_, h.host⟩
  have hsame : (p.sequence.kvState.addKvBlocks r.1).handles =
      handles r.1 + p.sequence.kvState.handles := by
    simp only [KVCacheState.addKvBlocks, KVCacheState.handles, handles_append]
    abel
  simp only [setKvState_kvState]
  rw [hsame, add_assoc]
  exact hr.sound

inductive Tried (p : Serving) (live : Multiset (Handle Int)) (shared : List Block)
    (needsId : Bool) : Bool → Serving → Prop
  | grown (blocks : List Block) (m : BlockManagerImpl) (heap : BlockHeap)
      (hm : Xllm.Sound.Allocated p.rank.blockManager live
        (p.numBlocksNeeded shared.length) blocks m)
      (hlen : blocks.length = p.numBlocksNeeded shared.length)
      (hroom : p.sequence.kvState.kvCacheTokensNum + p.sequence.numTokens ≤
        (p.sequence.kvState.addKvBlocks blocks).currentMaxTokensCapacity) :
      Tried p live shared needsId true ((p.setManager { m with heap := heap }).setKvState
        { p.sequence.kvState.addKvBlocks blocks with
          kvCacheTokensNum := p.sequence.kvState.kvCacheTokensNum + p.sequence.numTokens })
  /-- It has not, and the sequence is reset if anything was matched. -/
  | failed (m : BlockManagerImpl) (used : Nat) (device host : BlockHeap) (em : EmbeddingManager)
      (hm : Xllm.Sound.Allocated p.rank.blockManager live (p.numBlocksNeeded shared.length) [] m)
      (hshort : p.numBlocksNeeded shared.length ≠ 0)
      (hused : if shared = [] then used = m.numUsedBlocks else
        m.options.enablePrefixCache = true → used + shared.countP m.releasable = m.numUsedBlocks)
      (hid : if needsId = true then
          p.rank.embeddingManager.release p.sequence.embeddingBlock = .ok em
        else em = p.rank.embeddingManager) :
      Tried p live shared needsId false
        ⟨{ p.rank with
            blockManager := { m with numUsedBlocks := used, heap := device }
            hostBlockManager := { p.rank.hostBlockManager with heap := host }
            embeddingManager := em },
          { (if shared = [] then p.sequence else p.sequence.released) with
            embeddingBlock := if needsId = true then p.sequence.embeddingBlock.movedFrom
              else p.sequence.embeddingBlock }⟩

omit [XXH3] in
theorem decAll_ensures {bs : List Block} (h : p.Sound (handles bs + rest) hostRest) :
    Yields (p.rank.blockManager.heap.decAll bs)
      (fun heap => (p.setHeap heap).Sound rest hostRest) := by
  have howned := h.device.owned
  rw [add_left_comm p.sequence.kvState.handles, add_left_comm] at howned
  exact howned.decAll.mono_post fun heap hheap =>
    ⟨sound_setHeap h.device hheap.1 hheap.2, h.host⟩

omit [XXH3] in
/-- A refused allocation gives the shared blocks back. -/
theorem tryRollback_ensures (shared : List Block) (h : p.Sound rest hostRest) (needsId : Bool) :
    Ensures (p.tryRollback shared needsId)
      (fun e => e = .embeddingIds ∨ e = .blockAlreadyReleased ∧
        p.rank.blockManager.numUsedBlocks < shared.countP p.rank.blockManager.releasable)
      (fun p' => p'.Sound rest hostRest ∧ ∃ used device host em,
        (if shared = [] then used = p.rank.blockManager.numUsedBlocks else
          p.rank.blockManager.options.enablePrefixCache = true →
            used + shared.countP p.rank.blockManager.releasable =
              p.rank.blockManager.numUsedBlocks) ∧
        (if needsId = true then p.rank.embeddingManager.release p.sequence.embeddingBlock = .ok em
          else em = p.rank.embeddingManager) ∧
        p' = ⟨{ p.rank with
            blockManager := { p.rank.blockManager with numUsedBlocks := used, heap := device }
            hostBlockManager := { p.rank.hostBlockManager with heap := host }
            embeddingManager := em },
          { (if shared = [] then p.sequence else p.sequence.released) with
            embeddingBlock := if needsId = true then p.sequence.embeddingBlock.movedFrom
              else p.sequence.embeddingBlock }⟩) := by
  have hid : ∀ q : Serving, q.Sound rest hostRest →
      Ensures (if needsId = true then q.deallocateEmbeddingId else .ok q)
        (fun e => e = .embeddingIds) (fun p' => p'.Sound rest hostRest ∧ ∃ em,
          (if needsId = true then q.rank.embeddingManager.release q.sequence.embeddingBlock = .ok em
            else em = q.rank.embeddingManager) ∧
          p' = ⟨{ q.rank with embeddingManager := em }, { q.sequence with
            embeddingBlock := if needsId = true then q.sequence.embeddingBlock.movedFrom
              else q.sequence.embeddingBlock }⟩) := by
    intro q hq
    cases needsId with
    | false => exact ⟨hq, q.rank.embeddingManager, rfl, rfl⟩
    | true =>
        refine Ensures.mono_post (deallocateEmbeddingId_ensures hq) fun p' hp => ?_
        obtain ⟨⟨em, hem, rfl⟩, hsound⟩ := hp
        exact ⟨hsound, em, hem, rfl⟩
  rw [tryRollback]
  by_cases hnil : shared = []
  · simp only [if_pos hnil]
    refine Ensures.mono (hid p h) (fun e he => .inl he) fun p' hp => ?_
    obtain ⟨hsound, em, hem, rfl⟩ := hp
    exact ⟨hsound, _, _, _, em, rfl, hem, rfl⟩
  · simp only [if_neg hnil]
    refine ((h.device.deallocate shared).mono (fun e he => .inr ⟨he.1, he.2.2⟩)
      fun _ hm => hm).bind fun m hm => ?_
    obtain ⟨hsound, ⟨used, rfl⟩, hused⟩ := hm
    have hset : (p.setManager { p.rank.blockManager with numUsedBlocks := used }).Sound
        rest hostRest := ⟨hsound, h.host⟩
    refine (resetSequence_ensures hset).total.bind fun q hq => ?_
    obtain ⟨⟨device, host, rfl⟩, hsound'⟩ := hq
    refine Ensures.mono (hid _ hsound') (fun e he => .inl he) fun p' hp => ?_
    obtain ⟨hsound'', em, hem, rfl⟩ := hp
    exact ⟨hsound'', used, device, host, em, hused, hem, rfl⟩

omit [XXH3] in
theorem tryMore_ensures {shared : List Block} (h : p.Sound (handles shared + rest) hostRest)
    (needsId : Bool) :
    Ensures (p.tryMore shared needsId)
      (fun e => e = .notEnoughBlocks ∧ 2 ^ 32 ≤ p.numBlocksNeeded shared.length ∨
        e = .kvTokensOverCapacity ∧ (∃ blocks m, blocks.length = p.numBlocksNeeded shared.length ∧
          Xllm.Sound.Allocated p.rank.blockManager
            (p.sequence.kvState.handles + (handles shared + rest))
            (p.numBlocksNeeded shared.length) blocks m ∧
          (p.sequence.kvState.addKvBlocks blocks).currentMaxTokensCapacity <
            p.sequence.kvState.kvCacheTokensNum + p.sequence.numTokens) ∨
        e = .embeddingIds ∨ e = .blockAlreadyReleased ∧ p.numBlocksNeeded shared.length ≠ 0 ∧
          ∃ m, Xllm.Sound.Allocated
            p.rank.blockManager (p.sequence.kvState.handles + (handles shared + rest))
            (p.numBlocksNeeded shared.length) [] m ∧ m.numUsedBlocks < shared.countP m.releasable)
      (fun r => Tried p (p.sequence.kvState.handles + (handles shared + rest)) shared needsId
        r.1 r.2 ∧ r.2.Sound rest hostRest) := by
  refine ((allocate_device_ensures h _).mono (fun e he => .inl he) fun _ hr => hr).bind
    fun r hr => ?_
  obtain ⟨blocks, m⟩ := r
  obtain ⟨hm, hsound⟩ := hr
  simp only at hm hsound ⊢
  split
  · rename_i hlen
    by_cases hroom : p.sequence.kvState.kvCacheTokensNum + p.sequence.numTokens ≤
        (p.sequence.kvState.addKvBlocks blocks).currentMaxTokensCapacity
    · have hincr : (p.sequence.kvState.addKvBlocks blocks).incrKvCacheTokensNum
          p.sequence.numTokens = .ok { p.sequence.kvState.addKvBlocks blocks with
            kvCacheTokensNum := p.sequence.kvState.kvCacheTokensNum + p.sequence.numTokens } :=
        if_pos hroom
      simp only [setManager_sequence, hincr]
      refine (decAll_ensures hsound).total.bind fun heap hheap => ?_
      exact ⟨.grown blocks m heap hm hlen hroom, hheap.device, hheap.host⟩
    · have hincr : (p.sequence.kvState.addKvBlocks blocks).incrKvCacheTokensNum
          p.sequence.numTokens = .error .kvTokensOverCapacity := if_neg hroom
      simp only [setManager_sequence, hincr]
      exact .inr (.inl ⟨rfl, blocks, m, hlen, hm, Nat.lt_of_not_le hroom⟩)
  · rename_i hlen
    have hnil : blocks = [] := hm.length_eq.resolve_right hlen
    subst hnil
    have hset : (p.setManager m).Sound (handles shared + rest) hostRest := by
      have hdevice := hsound.device
      simp only [KVCacheState.addKvBlocks, List.append_nil] at hdevice
      exact ⟨hdevice, h.host⟩
    have hroll := tryRollback_ensures shared hset needsId
    refine (hroll.mono ?_ fun _ hq => hq).bind fun q hq => ?_
    · rintro e (he | he)
      · exact .inr (.inr (.inl he))
      · exact .inr (.inr (.inr ⟨he.1, fun hz => hlen hz.symm, m, hm, he.2⟩))
    · obtain ⟨hsound', used, device, host, em, hused, hem, rfl⟩ := hq
      refine (decAll_ensures hsound').total.bind fun heap hheap => ?_
      exact ⟨.failed m used heap host em hm (fun hz => hlen hz.symm) hused hem, hheap⟩

theorem tryAllocate_rule {I : Serving → Prop} {J : List Block → Serving → Prop}
    (embed : Ensures p.allocateEmbeddingId E (fun r =>
      if r.1 = true then I r.2 else Q (false, r.2)))
    (shared : ∀ q, I q → Ensures q.tryShared E (fun r => J r.1 r.2))
    (more : ∀ bs q, J bs q → Ensures (q.tryMore bs (!p.sequence.hasEmbeddingId)) E Q) :
    Ensures p.tryAllocate E Q := by
  refine embed.bind fun r hr => ?_
  obtain ⟨ok, q⟩ := r
  cases ok with
  | false => exact hr
  | true => exact (shared q hr).bind fun s hs => more s.1 s.2 hs

end Allocate

end Serving

end Xllm
