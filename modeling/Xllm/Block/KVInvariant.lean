import Xllm.Block.PoolRun

/-!
# The counters of a key-value state

A sequence counts the tokens whose keys and values are in its blocks and the
blocks at the front that it shares with the prefix cache. The counters should
agree with the blocks: the shared blocks are full, and the blocks have room for
all counted tokens. `allocate_shared`, the batch builder, `append_token` and
`try_allocate` each update them on their own.

`run_kvBounds` shows that the agreement survives every run whose steps are
`Regular`, and that the checks which rely on it cannot fail in such a run. The one
place where the code itself breaks the agreement is `try_replace_unique_blocks`,
which takes over matched blocks without counting their tokens.
-/

namespace Xllm

open Contract Ledger List

structure KVBounds (blockSize : Nat) (kv : KVCacheState) : Prop where
  shared_le : kv.numOwnedSharedBlocks * blockSize ≤ kv.kvCacheTokensNum
  tokens_le : kv.kvCacheTokensNum ≤ kv.blocks.length * blockSize
  blocks_le : kv.numOwnedSharedBlocks ≤ kv.blocks.length

instance (blockSize : Nat) (kv : KVCacheState) : Decidable (KVBounds blockSize kv) :=
  decidable_of_iff (kv.numOwnedSharedBlocks * blockSize ≤ kv.kvCacheTokensNum ∧
      kv.kvCacheTokensNum ≤ kv.blocks.length * blockSize ∧
      kv.numOwnedSharedBlocks ≤ kv.blocks.length)
    ⟨fun h => ⟨h.1, h.2.1, h.2.2⟩, fun h => ⟨h.shared_le, h.tokens_le, h.blocks_le⟩⟩

/-- The agreement, with what keeps it: the counted tokens are in the token buffer,
and there is no pending beam source. -/
structure Bounded (blockSize : Nat) (seq : Sequence) : Prop where
  bounds : KVBounds blockSize seq.kvState
  src_nil : seq.kvState.srcBlocks = []
  tokens_pos : 0 < seq.numTokens
  shared_tokens : seq.kvState.numOwnedSharedBlocks * blockSize ≤ seq.numTokens
  kv_le : seq.kvState.kvCacheTokensNum ≤ seq.tokenBuffer.length
  tokens_le : seq.numTokens ≤ seq.tokenBuffer.length
  buffer_lt : seq.tokenBuffer.length < 2 ^ 61

def countersChecked : List Check :=
  [.sharedBeyondCached, .kvTokensOverCapacity, .sharedOverBlocks, .matchedOverOwned,
    .zeroBlockSize, .sharedTokensNotBelowTotal, .sliceOutOfRange, .noCacheBlocks, .outOfBounds]

namespace Bounded

variable {blockSize : Nat} {seq : Sequence}

theorem of_cleared (h : Bounded blockSize seq) : Bounded blockSize seq.released where
  bounds := ⟨by simp [Sequence.released, KVCacheState.cleared],
    by simp [Sequence.released, KVCacheState.cleared],
    by simp [Sequence.released, KVCacheState.cleared]⟩
  src_nil := h.src_nil
  tokens_pos := h.tokens_pos
  shared_tokens := by simp [Sequence.released, KVCacheState.cleared]
  kv_le := by simp [Sequence.released, KVCacheState.cleared]
  tokens_le := h.tokens_le
  buffer_lt := h.buffer_lt

theorem setEmbedding (h : Bounded blockSize seq) (b : Block) :
    Bounded blockSize { seq with embeddingBlock := b } :=
  ⟨h.bounds, h.src_nil, h.tokens_pos, h.shared_tokens, h.kv_le, h.tokens_le, h.buffer_lt⟩

theorem setBlocks (h : Bounded blockSize seq) {blocks : List Block}
    (hlen : seq.kvState.blocks.length ≤ blocks.length) :
    Bounded blockSize { seq with kvState := { seq.kvState with blocks := blocks } } where
  bounds := ⟨h.bounds.shared_le,
    h.bounds.tokens_le.trans (Nat.mul_le_mul_right _ hlen), h.bounds.blocks_le.trans hlen⟩
  src_nil := h.src_nil
  tokens_pos := h.tokens_pos
  shared_tokens := h.shared_tokens
  kv_le := h.kv_le
  tokens_le := h.tokens_le
  buffer_lt := h.buffer_lt

/-- Matched blocks become shared blocks. The token count follows, except when they
replace blocks that the sequence has: then it has to cover them already. -/
theorem withShared (h : Bounded blockSize seq) {blocks : List Block}
    (hsize : blocks ≠ [] → KVCacheState.headSize blocks = blockSize)
    (hfit : blocks.length * blockSize ≤ seq.numTokens)
    (hcovered : blocks.length ≤ seq.kvState.blocks.length →
      seq.kvState.numOwnedSharedBlocks < blocks.length →
      blocks.length * blockSize ≤ seq.kvState.kvCacheTokensNum) :
    Bounded blockSize { seq with kvState := seq.kvState.withShared blocks seq.numTokens } := by
  have hbounds := h.bounds
  have hkv := h.kv_le
  have htokens := h.tokens_le
  rw [KVCacheState.withShared]
  by_cases hnil : blocks = []
  · rw [if_pos hnil]
    exact h
  rw [if_neg hnil, hsize hnil]
  by_cases hle : blocks.length ≤ seq.kvState.blocks.length
  · rw [if_pos hle]
    by_cases hlt : seq.kvState.numOwnedSharedBlocks < blocks.length
    · rw [if_pos hlt]
      have hlen : (blocks ++ seq.kvState.blocks.drop blocks.length).length =
          seq.kvState.blocks.length := by
        rw [length_append, length_drop]
        omega
      refine ⟨⟨hcovered hle hlt, ?_, ?_⟩, h.src_nil, h.tokens_pos, hfit, hkv, htokens, h.buffer_lt⟩
      · rw [hlen]
        exact hbounds.tokens_le
      · rw [hlen]
        exact hle
    · rw [if_neg hlt]
      exact h
  rw [if_neg hle]
  have hpos : 0 < blocks.length := List.length_pos_iff.mpr hnil
  by_cases hexact : blocks.length * blockSize = seq.numTokens
  · -- The last matched block is given up, and its tokens are computed again.
    rw [if_pos hexact]
    have hbs : 0 < blockSize := by
      refine Nat.pos_of_ne_zero fun hz => ?_
      have := h.tokens_pos
      simp [← hexact, hz] at this
    have hstep : (blocks.length - 1) * blockSize + blockSize = seq.numTokens := by
      rw [← hexact, ← Nat.succ_mul, Nat.succ_eq_add_one, Nat.sub_add_cancel hpos]
    have hcount : (seq.numTokens - 1) / blockSize = blocks.length - 1 := by
      refine Nat.div_eq_of_lt_le (by omega) ?_
      rw [Nat.sub_add_cancel hpos]
      omega
    have hless : (blocks.length - 1) * blockSize ≤ seq.numTokens :=
      (Nat.mul_le_mul_right _ (Nat.sub_le _ _)).trans hfit
    rw [hcount]
    refine ⟨⟨Nat.le_refl _, ?_, ?_⟩, h.src_nil, h.tokens_pos, hless, hless.trans htokens, htokens,
      h.buffer_lt⟩ <;> simp
  · rw [if_neg hexact]
    exact ⟨⟨Nat.le_refl _, Nat.le_refl _, Nat.le_refl _⟩, h.src_nil, h.tokens_pos, hfit,
      hfit.trans htokens, htokens, h.buffer_lt⟩

end Bounded

namespace Serving

variable {p p' : Serving} {options : Options} {rest hostRest : Multiset (Handle Int)}

/-- A good serving whose counters agree with its blocks. -/
structure GoodBounded (options : Options) (rest hostRest : Multiset (Handle Int)) (p : Serving) :
    Prop where
  good : p.Good options rest hostRest
  bounded : Bounded options.blockSize p.sequence

theorem GoodBounded.embedding {ok : Bool} (h : GoodBounded options rest hostRest p)
    (he : Embedded p ok p') : GoodBounded options rest hostRest p' := by
  refine ⟨he.good h.good, ?_⟩
  obtain ⟨m, b, rfl⟩ := he.eq_setEmbedding
  exact h.bounded.setEmbedding b

theorem Beamed.eq_of_src_nil {needSwap ok : Bool} (h : Beamed p rest hostRest needSwap ok p')
    (hsrc : p.sequence.kvState.srcBlocks = []) : ok = true ∧ p' = p := by
  cases h with
  | idle h => exact ⟨rfl, rfl⟩
  | full m hbeam hne hswap hm => exact absurd hsrc hne
  | swapped b m heap hbeam hne hswap hm => exact absurd hsrc hne
  | taken heap hbeam hne hswap => exact absurd hsrc hne

theorem GoodBounded.processBeamSearch {E : Check → Prop}
    (h : GoodBounded options rest hostRest p) (needSwap : Bool) :
    Ensures (p.processBeamSearch needSwap) E (fun r => GoodBounded options rest hostRest r.2) := by
  refine (processBeamSearch_ensures h.good.sound needSwap).total.mono_post fun r hr => ?_
  rw [(hr.1.eq_of_src_nil h.bounded.src_nil).2]
  exact h

theorem GoodBounded.drop (h : GoodBounded options rest hostRest p) (embedding : Bool) :
    Ensures (p.drop embedding) (· ∉ countersChecked) (GoodBounded options rest hostRest) := by
  refine (drop_ensures h.good.sound embedding).mono ?_ fun p' hp => ?_
  · rintro e (rfl | ⟨rfl, -⟩) <;> decide
  · refine ⟨hp.1.good h.good hp.2, ?_⟩
    cases hp.1 with
    | drop used device host m hused hm => exact h.bounded.of_cleared.setEmbedding _

theorem GoodBounded.grow {bs : List Block} {m : BlockManagerImpl} {n : Nat}
    (h : GoodBounded options rest hostRest p)
    (hm : Xllm.Sound.Allocated p.rank.blockManager (p.sequence.kvState.handles + rest) n bs m)
    (hsound : ((p.setManager m).setKvState (p.sequence.kvState.addKvBlocks bs)).Sound
      rest hostRest) :
    GoodBounded options rest hostRest
      ((p.setManager m).setKvState (p.sequence.kvState.addKvBlocks bs)) :=
  ⟨good_of_allocated h.good hm hsound, h.bounded.setBlocks (by simp)⟩

theorem GoodBounded.allocateMore (h : GoodBounded options rest hostRest p) (numTokens : Nat)
    (startedEmpty needsId : Bool) :
    Ensures (p.allocateMore numTokens startedEmpty needsId) (· ∉ countersChecked)
      (fun r => GoodBounded options rest hostRest r.2) := by
  refine allocateMore_rule (fun _ => h.processBeamSearch true)
    (fun _ => h.processBeamSearch false) ?_
  intro q hq
  refine (allocate_device_ensures hq.good.sound _).mono ?_ fun r hr => ?_
  · rintro e ⟨rfl, -⟩
    decide
  split
  · exact hq.grow hr.1 hr.2
  · rename_i hlen
    have hnil : r.1 = [] := hr.1.length_eq.resolve_right hlen
    rw [hnil] at hr
    have hset : GoodBounded options rest hostRest (q.setManager r.2) :=
      ⟨good_of_not_allocated hq.good hr.1 hr.2, hq.bounded⟩
    rw [rollback]
    split
    · exact hset.drop needsId
    · exact hset

section

variable [XXH3]

theorem matched_fits (hp : GoodBounded options rest hostRest p) :
    p.matched.length * options.blockSize ≤ p.sequence.numTokens := by
  have hsize : p.rank.blockManager.prefixCache.blockSize = options.blockSize :=
    hp.good.sound.device.blockSize_eq.trans (by rw [hp.good.options_eq])
  have htokens : p.sequence.tokens.length = p.sequence.numTokens := by
    rw [Sequence.tokens, length_take, Nat.min_eq_left hp.bounded.tokens_le]
  have hexisted : p.existedSharedBlocks.length ≤ p.sequence.kvState.numOwnedSharedBlocks := by
    rw [existedSharedBlocks]
    split
    · exact Nat.zero_le _
    · exact length_take_le _ _
  have hkeys : (p.rank.blockManager.prefixCache.matchKeys p.sequence.tokens
      p.existedSharedBlocks).length =
      p.sequence.numTokens / options.blockSize - p.existedSharedBlocks.length := by
    rw [PrefixCache.matchKeys, chainKeys_length, length_drop, tokenBlocks_length, hsize,
      htokens]
  rw [matched, PrefixCache.matched]
  split
  · simp
  · generalize p.rank.blockManager.prefixCache.matchKeys p.sequence.tokens
      p.existedSharedBlocks = keys at hkeys ⊢
    have hhits : (Lru.hits Block.hashValue p.rank.blockManager.prefixCache.entries keys).length ≤
        keys.length := Lru.length_hits_le _ _
    rw [length_append]
    by_cases hle : p.existedSharedBlocks.length ≤ p.sequence.numTokens / options.blockSize
    · exact (Nat.mul_le_mul_right _ (by omega)).trans (Nat.div_mul_le_self _ options.blockSize)
    · exact (Nat.mul_le_mul_right _ (by omega)).trans hp.bounded.shared_tokens

omit [XXH3] in
theorem headSize_of_proper {bs : List Block} {blockSize : Nat}
    (h : ∀ b ∈ bs, b.Proper blockSize) (hne : bs ≠ []) : KVCacheState.headSize bs = blockSize := by
  cases bs with
  | nil => exact absurd rfl hne
  | cons b bs => exact (h b mem_cons_self).2

theorem GoodBounded.sharedFits (h : GoodBounded options rest hostRest p) :
    p.SharedFits p.matched := by
  have hpos := h.bounded.tokens_pos
  by_cases hnil : p.matched = []
  · left
    simpa [hnil] using hpos
  · have hfit := matched_fits h
    rw [SharedFits, headSize_of_proper (proper_matched h.good) hnil]
    rcases Nat.lt_or_eq_of_le hfit with hlt | heq
    · exact .inl hlt
    · have hbs : 0 < options.blockSize := h.good.options_eq ▸ h.good.sound.device.blockSize_pos
      exact .inr ⟨heq, hbs, hpos⟩

/-- The blocks that `allocate_shared` would take over from the cache are either
more than the sequence has, or hold no tokens that it has not computed. -/
def SharedCovered (p : Serving) : Prop :=
  p.rank.blockManager.options.enablePrefixCache = true →
    p.matched.length ≤ p.sequence.kvState.blocks.length →
    p.sequence.kvState.numOwnedSharedBlocks < p.matched.length →
    p.matched.length * p.blockSize ≤ p.sequence.kvState.kvCacheTokensNum

instance (p : Serving) : Decidable p.SharedCovered := by
  unfold SharedCovered
  infer_instance

theorem GoodBounded.allocateShared (h : GoodBounded options rest hostRest p)
    (hcovered : p.SharedCovered) :
    Ensures p.allocateShared (· ∉ countersChecked) (GoodBounded options rest hostRest) := by
  have hblockSize : p.blockSize = options.blockSize := by rw [blockSize, h.good.options_eq]
  refine (allocateShared_ensures h.good.sound).mono ?_ fun p' hp => ?_
  · rintro e (⟨rfl, hlt⟩ | ⟨rfl, -⟩ | ⟨-, hcache, hnot⟩)
    · exact absurd h.bounded.bounds.blocks_le (Nat.not_le_of_lt hlt)
    · decide
    · exact absurd h.sharedFits hnot
  · obtain ⟨bs, m, hp⟩ := hp
    refine ⟨hp.good h.good, ?_⟩
    have hproper := proper_of_shared hp.shared h.good
    have hbs := hp.shared.blocks_eq
    obtain ⟨heap, rfl⟩ := hp.state_eq
    by_cases hcache : p.rank.blockManager.options.enablePrefixCache = true
    · rw [if_pos hcache] at hbs
      subst hbs
      refine h.bounded.withShared (headSize_of_proper hproper) (matched_fits h) fun hle hlt => ?_
      rw [← hblockSize]
      exact hcovered hcache hle hlt
    · rw [if_neg hcache] at hbs
      subst hbs
      refine h.bounded.withShared (headSize_of_proper hproper) (by simp) fun _ hlt => ?_
      exact absurd hlt (Nat.not_lt_zero _)

theorem GoodBounded.cache (h : GoodBounded options rest hostRest p) :
    Ensures p.cache (· ∉ countersChecked) (GoodBounded options rest hostRest) := by
  refine (cache_ensures h.good.sound).mono ?_ fun p' hp => ?_
  · rintro e (⟨rfl, hlt⟩ | ⟨rfl, hlt, -⟩ | ⟨rfl, -⟩)
    · exact absurd h.bounded.kv_le (Nat.not_le_of_lt hlt)
    · have hsize : p.rank.blockManager.prefixCache.blockSize = options.blockSize :=
        h.good.sound.device.blockSize_eq.trans (by rw [h.good.options_eq])
      have hbs : 0 < options.blockSize := h.good.options_eq ▸ h.good.sound.device.blockSize_pos
      have hfull := (Nat.le_div_iff_mul_le hbs).mpr h.bounded.bounds.shared_le
      have hblocks := h.bounded.bounds.blocks_le
      have hkv := h.bounded.kv_le
      rw [PrefixCache.insertCount, Sequence.computedTokens, length_take,
        Nat.min_eq_left hkv, hsize] at hlt
      omega
    · decide
  · obtain ⟨bs, m, hp⟩ := hp
    refine ⟨hp.good h.good, ?_⟩
    have hlen : p.sequence.kvState.blocks.length = bs.length := by
      have := congrArg List.length hp.core_eq
      simpa using this.symm
    rw [hp.state_eq]
    exact h.bounded.setBlocks (Nat.le_of_eq hlen)

theorem GoodBounded.deallocate (h : GoodBounded options rest hostRest p) :
    Ensures p.deallocate (· ∉ countersChecked) (GoodBounded options rest hostRest) :=
  deallocate_rule h.cache fun _ hq => hq.drop true

omit [XXH3] in
theorem GoodBounded.allocateEmbeddingId (h : GoodBounded options rest hostRest p) :
    Ensures p.allocateEmbeddingId (· ∉ countersChecked) (fun r =>
      GoodBounded options rest hostRest r.2 ∧ r.2.sequence.kvState = p.sequence.kvState) := by
  refine (allocateEmbeddingId_ensures p).mono ?_ fun r hr => ⟨h.embedding hr, ?_⟩
  · rintro e rfl
    decide
  · obtain ⟨m, b, hr⟩ := hr.eq_setEmbedding
    rw [hr]

theorem GoodBounded.allocate (h : GoodBounded options rest hostRest p) (numTokens : Nat) :
    Ensures (p.allocate numTokens) (· ∉ countersChecked)
      (fun r => GoodBounded options rest hostRest r.2) := by
  refine allocate_rule (I := fun q => GoodBounded options rest hostRest q ∧
    q.sequence.kvState = p.sequence.kvState) (J := GoodBounded options rest hostRest) ?_ ?_ ?_
  · refine h.allocateEmbeddingId.mono_post fun r hr => ?_
    split
    · exact hr
    · exact hr.1
  · intro q hq
    split
    · -- A sequence without blocks takes over whatever is matched.
      rename_i hempty
      refine hq.1.allocateShared fun _ hle hlt => ?_
      rw [hq.2] at hle
      simp only [KVCacheState.numKvBlocks] at hempty
      omega
    · exact hq.1
  · intro q hq
    exact hq.allocateMore numTokens _ _

omit [XXH3] in
theorem numBlocksNeeded_room {sharedNum : Nat} (hbs : 0 < p.blockSize)
    (hsmall : p.blockSize < 2 ^ 31) (htokens : p.sequence.numTokens < 2 ^ 61)
    (hfit : sharedNum * p.blockSize ≤ p.sequence.numTokens) :
    p.sequence.numTokens ≤ (sharedNum + p.numBlocksNeeded sharedNum) * p.blockSize := by
  have hsub : subSize p.sequence.numTokens (sharedNum * p.blockSize) =
      p.sequence.numTokens - sharedNum * p.blockSize := by
    rw [subSize]
    omega
  have hdiv := Nat.div_add_mod
    (p.sequence.numTokens - sharedNum * p.blockSize + p.blockSize - 1) p.blockSize
  have hmod := Nat.mod_lt
    (p.sequence.numTokens - sharedNum * p.blockSize + p.blockSize - 1) hbs
  rw [numBlocksNeeded, hsub, Nat.mod_eq_of_lt (by omega), Nat.add_mul,
    Nat.mul_comm (_ / _) p.blockSize]
  omega

/-- The state of `try_allocate` between its two parts, for a sequence that had
computed nothing. -/
structure TryShared (options : Options) (rest hostRest : Multiset (Handle Int))
    (shared : List Block) (p : Serving) : Prop where
  good : p.Good options (handles shared + rest) hostRest
  bounded : Bounded options.blockSize { p.sequence with kvState :=
    { p.sequence.kvState with numOwnedSharedBlocks := 0 } }
  kv_zero : p.sequence.kvState.kvCacheTokensNum = 0
  shared_eq : p.sequence.kvState.numOwnedSharedBlocks = shared.length
  blocks_le : shared.length ≤ p.sequence.kvState.blocks.length
  fits : shared.length * options.blockSize ≤ p.sequence.numTokens

theorem GoodBounded.tryShared (h : GoodBounded options rest hostRest p)
    (hzero : p.sequence.kvState.kvCacheTokensNum = 0) :
    Ensures p.tryShared (· ∉ countersChecked)
      (fun r => TryShared options rest hostRest r.1 r.2) := by
  have hbs : 0 < options.blockSize := h.good.options_eq ▸ h.good.sound.device.blockSize_pos
  have hnone : p.sequence.kvState.numOwnedSharedBlocks = 0 := by
    have hshared := h.bounded.bounds.shared_le
    rw [hzero, Nat.le_zero, Nat.mul_eq_zero] at hshared
    omega
  refine (tryShared_ensures h.good.sound).mono ?_ fun r hr => ?_
  · rintro e (⟨rfl, hlt⟩ | ⟨rfl, -⟩)
    · exact absurd h.bounded.bounds.blocks_le (Nat.not_le_of_lt hlt)
    · decide
  · obtain ⟨m, heap, hshared, -, hstate, hsound⟩ := hr
    have hgood := (h.good.tryShared_of hshared hstate hsound)
    have hfits : r.1.length * options.blockSize ≤ p.sequence.numTokens := by
      rw [hshared.blocks_eq]
      split
      · exact matched_fits h
      · simp
    rw [hstate] at hgood ⊢
    refine ⟨hgood, ?_, hzero, ?_, ?_, hfits⟩
    · have hmore : p.sequence.kvState.blocks.length
        ≤ (p.sequence.kvState.blocks ++ r.1).length := by
        simp
      rw [← hnone]
      exact h.bounded.setBlocks hmore
    · simp [withTryShared, hnone]
    · simp [withTryShared]

omit [XXH3] in
theorem TryShared.tryMore {shared : List Block} (h : TryShared options rest hostRest shared p)
    (hsmall : options.blockSize < 2 ^ 31) (needsId : Bool) :
    Ensures (p.tryMore shared needsId) (· ∉ countersChecked)
      (fun r => GoodBounded options rest hostRest r.2) := by
  have hblockSize : p.blockSize = options.blockSize := by rw [blockSize, h.good.options_eq]
  have hbs : 0 < options.blockSize := h.good.options_eq ▸ h.good.sound.device.blockSize_pos
  have hbounded := h.bounded
  have htokens := Nat.lt_of_le_of_lt hbounded.tokens_le hbounded.buffer_lt
  have hroom : ∀ blocks : List Block, blocks.length = p.numBlocksNeeded shared.length →
      p.sequence.numTokens ≤
        (p.sequence.kvState.addKvBlocks blocks).blocks.length * options.blockSize := by
    intro blocks hlen
    have hneeded := numBlocksNeeded_room (hblockSize ▸ hbs) (hblockSize ▸ hsmall) htokens
      (hblockSize ▸ h.fits)
    rw [hblockSize] at hneeded
    refine hneeded.trans (Nat.mul_le_mul_right _ ?_)
    have := h.blocks_le
    simp only [KVCacheState.addKvBlocks, length_append]
    omega
  refine (tryMore_ensures h.good.sound needsId).mono ?_ fun r hr => ?_
  · rintro e (⟨rfl, -⟩ | ⟨rfl, blocks, m, hlen, hm, hover⟩ | rfl | ⟨rfl, -⟩)
    · decide
    · have hall : ∀ b ∈ (p.sequence.kvState.addKvBlocks blocks).blocks,
          b.Proper options.blockSize := by
        intro b hb
        rcases List.mem_append.mp hb with hb | hb
        · exact h.good.blocks b hb
        · exact h.good.options_eq ▸ ⟨hm.valid b hb, hm.size_eq b hb⟩
      have hcap := hroom blocks hlen
      rw [h.kv_zero, KVCacheState.currentMaxTokensCapacity] at hover
      cases hblocks : (p.sequence.kvState.addKvBlocks blocks).blocks with
      | nil =>
          rw [hblocks] at hcap
          simp at hcap
          omega
      | cons b bs =>
          rw [hblocks] at hover hcap hall
          simp only at hover
          rw [(hall b mem_cons_self).2] at hover
          omega
    · decide
    · decide
  · obtain ⟨ok, p'⟩ := r
    obtain ⟨htried, hsound⟩ := hr
    refine ⟨htried.good h.good hsound, ?_⟩
    cases htried with
    | grown blocks m heap hm hlen hcap =>
        have hshared : shared.length * options.blockSize ≤ p.sequence.numTokens := h.fits
        refine ⟨⟨?_, ?_, ?_⟩, hbounded.src_nil, hbounded.tokens_pos, ?_, ?_, hbounded.tokens_le,
          hbounded.buffer_lt⟩
        · simp only [KVCacheState.addKvBlocks, h.shared_eq]
          omega
        · simp only [h.kv_zero, Nat.zero_add]
          exact hroom blocks hlen
        · have := h.blocks_le
          simp only [KVCacheState.addKvBlocks, h.shared_eq, length_append]
          omega
        · simp only [KVCacheState.addKvBlocks, h.shared_eq]
          exact hshared
        · simp only [h.kv_zero, Nat.zero_add]
          exact hbounded.tokens_le
    | failed m used device host em hm hshort hused hid =>
        by_cases hnil : shared = []
        · simp only [if_pos hnil]
          have hzero : p.sequence.kvState.numOwnedSharedBlocks = 0 := by simp [h.shared_eq, hnil]
          rw [← hzero] at hbounded
          exact hbounded.setEmbedding _
        · simp only [if_neg hnil]
          exact hbounded.of_cleared.setEmbedding _

theorem GoodBounded.tryAllocate (h : GoodBounded options rest hostRest p)
    (hsmall : options.blockSize < 2 ^ 31) (hzero : p.sequence.kvState.kvCacheTokensNum = 0) :
    Ensures p.tryAllocate (· ∉ countersChecked)
      (fun r => GoodBounded options rest hostRest r.2) := by
  refine tryAllocate_rule (I := fun q => GoodBounded options rest hostRest q ∧
    q.sequence.kvState = p.sequence.kvState) (J := TryShared options rest hostRest) ?_ ?_ ?_
  · refine h.allocateEmbeddingId.mono_post fun r hr => ?_
    split
    · exact hr
    · exact hr.1
  · intro q hq
    exact hq.1.tryShared (by rw [hq.2, hzero])
  · intro bs q hq
    exact hq.tryMore hsmall _

end

end Serving

namespace PoolState

section Run

variable [XXH3] {st : PoolState} {options : Options} {i : Nat}

/-- The steps after which the counters still agree with the blocks.

* `allocate_shared` matches no block that is only partly computed: the blocks that
  replace own blocks hold no tokens beyond the counted ones.
* `try_allocate` is for a sequence that has computed nothing.
* A batch, with its padding, stays within the token buffer.
* A token is appended when the blocks have room for the tokens before it.
* There is no beam search. -/
def Regular (st : PoolState) : PoolOp → Prop
  | .allocateShared i => ∀ seq ∈ st.sequences[i]?,
      Serving.SharedCovered ⟨st.rank, seq⟩
  | .tryAllocate i => ∀ seq ∈ st.sequences[i]?, seq.kvState.kvCacheTokensNum = 0
  | .forward i allowedMaxTokens cpSize isPrefill => ∀ seq ∈ st.sequences[i]?,
      seq.kvState.kvCacheTokensNum + (seq.querySeqLen allowedMaxTokens cpSize isPrefill).2 ≤
        seq.tokenBuffer.length
  | .appendToken i _ => ∀ seq ∈ st.sequences[i]?,
      seq.numTokens ≤ seq.kvState.blocks.length * st.rank.blockManager.options.blockSize
  | .setSrcBlocks _ _ _ => False
  | _ => True

instance (st : PoolState) : (op : PoolOp) → Decidable (st.Regular op)
  | .allocateShared _ => inferInstanceAs (Decidable (∀ seq ∈ _, Serving.SharedCovered ⟨_, seq⟩))
  | .tryAllocate _ => inferInstanceAs (Decidable (∀ seq ∈ _, _ = _))
  | .forward _ _ _ _ => inferInstanceAs (Decidable (∀ seq ∈ _, _ ≤ _))
  | .appendToken _ _ => inferInstanceAs (Decidable (∀ seq ∈ _, _ ≤ _))
  | .setSrcBlocks _ _ _ => inferInstanceAs (Decidable False)
  | .arrive _ _ _ => inferInstanceAs (Decidable True)
  | .allocate _ _ => inferInstanceAs (Decidable True)
  | .cache _ => inferInstanceAs (Decidable True)
  | .deallocate _ => inferInstanceAs (Decidable True)
  | .updateToken _ _ _ => inferInstanceAs (Decidable True)

structure InvBounded (options : Options) (st : PoolState) : Prop where
  inv : Inv options st
  bounded : ∀ seq ∈ st.sequences, Bounded options.blockSize seq

omit [XXH3] in
theorem InvBounded.serve {f : Serving → Except Check Serving} (h : InvBounded options st)
    (hf : ∀ seq, st.sequences[i]? = some seq → Ensures (f ⟨st.rank, seq⟩) (· ∉ countersChecked)
      (Serving.GoodBounded options (st.others i) (st.hostOthers i))) :
    Ensures (st.serve i f) (· ∉ countersChecked) (InvBounded options) := by
  rw [PoolState.serve]
  split
  · exact h
  · rename_i seq hi
    refine (hf seq hi).bind fun p hp => ⟨h.inv.set hi hp.good, ?_⟩
    intro s hs
    rcases mem_or_eq_of_mem_set hs with hs | rfl
    · exact h.bounded s hs
    · exact hp.bounded

omit [XXH3] in
theorem InvBounded.good (h : InvBounded options st) {seq : Sequence}
    (hi : st.sequences[i]? = some seq) :
    Serving.GoodBounded options (st.others i) (st.hostOthers i) ⟨st.rank, seq⟩ :=
  ⟨h.inv.good hi, h.bounded seq (mem_of_getElem? hi)⟩

omit [XXH3] in
theorem capacity_eq {blockSize : Nat} {kv : KVCacheState}
    (h : ∀ b ∈ kv.blocks, b.Proper blockSize) :
    kv.currentMaxTokensCapacity = kv.blocks.length * blockSize := by
  rw [KVCacheState.currentMaxTokensCapacity]
  split
  · rename_i hnil
    simp [hnil]
  · rename_i b bs hblocks
    rw [hblocks] at h
    rw [(h b mem_cons_self).2]

theorem InvBounded.step (h : InvBounded options st) (hsmall : options.blockSize < 2 ^ 31)
    {op : PoolOp} (hop : st.Regular op) :
    Ensures (st.step op) (· ∉ countersChecked) (InvBounded options) := by
  cases op with
  | arrive promptTokenIds capacity beamWidth =>
      refine ((Sequence.create_ensures promptTokenIds capacity beamWidth).mono ?_
        fun _ hs => hs).bind fun seq hs => ?_
      · rintro e rfl
        decide
      · obtain ⟨hkv, hhost, hpos, hlt, hmax⟩ := hs
        refine ⟨h.inv.arrive hkv hhost, ?_⟩
        intro s hs
        rcases List.mem_append.mp hs with hs | hs
        · exact h.bounded s hs
        · rw [List.mem_singleton.mp hs]
          constructor
          · constructor <;> simp [hkv]
          all_goals first | assumption | simp [hkv] | omega
  | allocate i numTokens =>
      rw [PoolState.step]
      refine h.serve fun seq hi => ?_
      exact ((h.good hi).allocate numTokens).bind fun r hr => hr
  | tryAllocate i =>
      rw [PoolState.step]
      refine h.serve fun seq hi => ?_
      exact ((h.good hi).tryAllocate hsmall (hop seq hi)).bind fun r hr => hr
  | allocateShared i => exact h.serve fun seq hi => (h.good hi).allocateShared (hop seq hi)
  | cache i => exact h.serve fun seq hi => (h.good hi).cache
  | deallocate i => exact h.serve fun seq hi => (h.good hi).deallocate
  | forward i allowedMaxTokens cpSize isPrefill =>
      rw [PoolState.step]
      refine h.serve fun seq hi => ?_
      have hgood := h.good hi
      refine ((Sequence.processSingleSequence_ensures allowedMaxTokens cpSize isPrefill).mono ?_
        fun _ hr => hr).bind fun r hr => ?_
      · rintro e rfl
        decide
      · obtain ⟨hcap, hseq⟩ := hr
        rw [capacity_eq hgood.good.blocks] at hcap
        simp only [hseq]
        refine ⟨good_setSequence hgood.good rfl rfl rfl, ?_⟩
        have hb := hgood.bounded
        exact ⟨⟨hb.bounds.shared_le.trans (Nat.le_add_right _ _), hcap, hb.bounds.blocks_le⟩,
          hb.src_nil, hb.tokens_pos, hb.shared_tokens, hop seq hi, hb.tokens_le, hb.buffer_lt⟩
  | appendToken i token =>
      rw [PoolState.step]
      refine h.serve fun seq hi => ?_
      have hgood := h.good hi
      rw [Sequence.appendToken]
      split
      · rename_i hchecks
        refine ⟨good_setSequence hgood.good rfl rfl rfl, ?_⟩
        have hb := hgood.bounded
        have hroom := hop seq hi
        rw [h.inv.options_eq] at hroom
        have hlen := hchecks.1
        have hsame : (seq.tokenBuffer.set seq.numTokens token).length = seq.tokenBuffer.length :=
          List.length_set
        refine ⟨⟨hb.shared_tokens, hroom, hb.bounds.blocks_le⟩, hb.src_nil, Nat.succ_pos _,
          Nat.le_succ_of_le hb.shared_tokens, ?_, ?_, ?_⟩
        · rw [hsame]
          exact hb.tokens_le
        · rw [hsame]
          exact hlen
        · rw [hsame]
          exact hb.buffer_lt
      · show Check.appendToken ∉ countersChecked
        decide
  | updateToken i index token =>
      rw [PoolState.step]
      refine h.serve fun seq hi => ?_
      have hgood := h.good hi
      refine ⟨good_setSequence hgood.good rfl rfl rfl, ?_⟩
      have hb := hgood.bounded
      have hsame : (seq.tokenBuffer.set index token).length = seq.tokenBuffer.length :=
        List.length_set
      refine ⟨hb.bounds, hb.src_nil, hb.tokens_pos, hb.shared_tokens, ?_, ?_, ?_⟩
      · exact hsame.symm ▸ hb.kv_le
      · exact hsame.symm ▸ hb.tokens_le
      · exact hsame.symm ▸ hb.buffer_lt
  | setSrcBlocks i j needSwap => exact hop.elim

/-- In every regular run of a rank the counters of every sequence agree with its
blocks, and the checks that rely on them hold. -/
theorem run_kvBounds {hostOptions : Options} {numIds : Nat} {concurrent : Bool}
    (hsmall : options.blockSize < 2 ^ 31)
    (hst : create options hostOptions numIds concurrent = .ok st) {ops : List PoolOp}
    (hops : Along step Regular st ops) :
    Ensures (run step st ops) (· ∉ countersChecked)
      (fun st' => ∀ seq ∈ st'.sequences, KVBounds options.blockSize seq.kvState) := by
  obtain ⟨hinv, hnone, -⟩ := Inv.create hst
  have hstart : InvBounded options st := ⟨hinv, by simp [hnone]⟩
  refine (hops.ensures_run (fun _ _ h hop => h.step hsmall hop) hstart).mono_post ?_
  intro st' h seq hs
  exact (h.bounded seq hs).bounds

end Run

/-- A later chunk matches two blocks and takes them over, one of which it has computed
only in part; giving up the sequence then fails the check of `insert`. -/
theorem replaced_blocks_outrun_tokens :
    let _ : XXH3 := XXH3.lastBytes
    let start := create ⟨10, 2, true⟩ ⟨1, 2, true⟩ 4 false
    let ops : List PoolOp :=
      [.arrive [1, 2, 3, 4, 5] 16 0, .arrive [1, 2, 3, 4, 5, 6] 16 0, .allocate 0 3,
        .forward 0 3 1 true, .allocate 1 6, .forward 1 6 1 true, .cache 1, .allocateShared 0]
    ¬Ensures (start >>= fun st => run step st ops) (fun _ => True)
        (fun st => ∀ seq ∈ st.sequences, KVBounds 2 seq.kvState) ∧
      Ensures (start >>= fun st => run step st (ops ++ [.deallocate 0]))
        (· = .sharedBeyondCached) (fun _ => False) := by
  decide +kernel

theorem run_kvBounds_decoding :
    let _ : XXH3 := XXH3.lastBytes
    ∃ st, create ⟨10, 2, true⟩ ⟨1, 2, true⟩ 4 false = .ok st ∧
      Ensures (run step st [.arrive [1, 2, 3, 4] 16 0, .arrive [1, 2, 3, 4] 16 0, .allocate 0 4,
          .forward 0 4 1 true, .allocateShared 0, .appendToken 0 9, .cache 0, .allocate 1 4,
          .deallocate 0]) (· ∉ countersChecked)
        (fun st' => ∀ seq ∈ st'.sequences, KVBounds 2 seq.kvState) := by
  intro hash
  have hsmall : (⟨10, 2, true⟩ : Options).blockSize < 2 ^ 31 := by decide
  have hst : create ⟨10, 2, true⟩ ⟨1, 2, true⟩ 4 false = .ok _ := rfl
  refine ⟨_, hst, run_kvBounds hsmall hst ?_⟩
  change Along (@step XXH3.lastBytes) (@Regular XXH3.lastBytes) _ _
  clear hash
  decide +kernel

end PoolState

end Xllm
