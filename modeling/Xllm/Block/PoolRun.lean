import Xllm.Block.PoolSound

/-!
# Runs of the pool

A rank serves its sequences one call at a time. Between the calls of the pool a
sequence arrives, a batch computes some of its tokens, a sampled token is
appended, and beam search hands it the blocks of another beam.

Whatever the order of these operations, the handles stay accounted for, every
cached or owned block is valid and has the block size of the manager. `Good` says
this for one sequence in the context of the others, and the operations of the
pool preserve it.
-/

namespace Xllm

open Contract Ledger List

def Block.Proper (blockSize : Nat) (b : Block) : Prop := b.refCount.isSome ∧ b.size = blockSize

theorem Block.Proper.of_core {blockSize : Nat} {a b : Block} (h : a.Proper blockSize)
    (hcore : a.core = b.core) : b.Proper blockSize := by
  obtain ⟨-, hsize, href⟩ := Block.core_eq_iff.mp hcore
  exact ⟨href ▸ h.1, hsize.symm.trans h.2⟩

namespace Serving

variable {p p' : Serving} {options : Options} {rest hostRest : Multiset (Handle Int)}

structure Good (options : Options) (rest hostRest : Multiset (Handle Int)) (p : Serving) :
    Prop where
  sound : p.Sound rest hostRest
  options_eq : p.rank.blockManager.options = options
  entries : ∀ b ∈ p.rank.blockManager.prefixCache.entries, b.Proper options.blockSize
  blocks : ∀ b ∈ p.sequence.kvState.blocks, b.Proper options.blockSize
  src : ∀ b ∈ p.sequence.kvState.srcBlocks, b.Proper options.blockSize

theorem Embedded.good {ok : Bool} (h : Embedded p ok p') (hp : p.Good options rest hostRest) :
    p'.Good options rest hostRest := by
  have hsound := h.sound hp.sound
  obtain ⟨m, b, rfl⟩ := h.eq_setEmbedding
  exact ⟨hsound, hp.options_eq, hp.entries, hp.blocks, hp.src⟩

theorem proper_of_allocated {m m' : BlockManagerImpl} {live : Multiset (Handle Int)} {n : Nat}
    {bs : List Block} (h : Xllm.Sound.Allocated m live n bs m')
    (hm : ∀ b ∈ m.prefixCache.entries, b.Proper m.options.blockSize) :
    (∀ b ∈ m'.prefixCache.entries, b.Proper m.options.blockSize) ∧
      ∀ b ∈ bs, b.Proper m.options.blockSize := by
  obtain ⟨k, hentries, -⟩ := h.swept
  refine ⟨fun b hb => hm b ?_, fun b hb => ⟨h.valid b hb, h.size_eq b hb⟩⟩
  rw [hentries] at hb
  exact (Lru.sweep_kept_sublist k _).subset hb

theorem Beamed.good {needSwap ok : Bool} (h : Beamed p rest hostRest needSwap ok p')
    (hp : p.Good options rest hostRest) (hsound : p'.Sound rest hostRest) :
    p'.Good options rest hostRest := by
  have hentries := hp.entries
  cases h with
  | idle h => exact hp
  | full m hbeam hsrc hswap hm =>
      rw [← hp.options_eq] at hentries
      obtain ⟨hentries', -⟩ := proper_of_allocated hm hentries
      rw [hp.options_eq] at hentries'
      exact ⟨hsound, hm.options_eq.trans hp.options_eq, hentries', hp.blocks, hp.src⟩
  | swapped b m heap hbeam hsrc hswap hm =>
      rw [← hp.options_eq] at hentries
      obtain ⟨hentries', hb⟩ := proper_of_allocated hm hentries
      rw [hp.options_eq] at hentries' hb
      refine ⟨hsound, hm.options_eq.trans hp.options_eq, hentries', ?_, by simp⟩
      intro c hc
      rcases List.mem_append.mp hc with hc | hc
      · exact hp.src c (mem_of_mem_dropLast hc)
      · exact hb c hc
  | taken heap hbeam hsrc hswap => exact ⟨hsound, hp.options_eq, hentries, hp.src, by simp⟩

theorem Dropped.good {embedding : Bool} (h : Dropped p embedding p')
    (hp : p.Good options rest hostRest) (hsound : p'.Sound rest hostRest) :
    p'.Good options rest hostRest := by
  cases h with
  | drop used device host m hused hm =>
      exact ⟨hsound, hp.options_eq, hp.entries, by simp [Sequence.released, KVCacheState.cleared],
        hp.src⟩

section

variable [XXH3]

/-- What `match` finds for the tokens of the sequence. -/
def matched (p : Serving) : List Block :=
  p.rank.blockManager.prefixCache.matched p.sequence.tokens p.existedSharedBlocks

theorem proper_matched (hp : p.Good options rest hostRest) :
    ∀ b ∈ p.matched, b.Proper options.blockSize := by
  intro b hb
  rw [matched, PrefixCache.matched] at hb
  split at hb
  · cases hb
  · rcases List.mem_append.mp hb with hb | hb
    · rw [existedSharedBlocks] at hb
      split at hb
      · cases hb
      · exact hp.blocks b (mem_of_mem_take hb)
    · exact hp.entries b (Lru.mem_of_mem_hits hb)

variable {bs : List Block} {m : BlockManagerImpl}

theorem proper_of_shared
    (h : Xllm.Sound.Shared p.rank.blockManager (p.sequence.kvState.handles + rest)
      p.sequence.tokens p.existedSharedBlocks bs m) (hp : p.Good options rest hostRest) :
    ∀ b ∈ bs, b.Proper options.blockSize := by
  intro b hb
  rw [h.blocks_eq] at hb
  split at hb
  · exact proper_matched hp b hb
  · cases hb

omit [XXH3] in
/-- The blocks of the sequence after `add_shared_kv_blocks` are matched or owned ones. -/
theorem mem_of_mem_withShared {kv : KVCacheState} {total : Nat} {b : Block}
    (hb : b ∈ (kv.withShared bs total).blocks) : b ∈ bs ∨ b ∈ kv.blocks := by
  rw [KVCacheState.withShared] at hb
  split_ifs at hb
  · exact .inr hb
  · rcases List.mem_append.mp hb with hb | hb
    · exact .inl hb
    · exact .inr (mem_of_mem_drop hb)
  · exact .inr hb
  · exact .inl (mem_of_mem_dropLast hb)
  · exact .inl hb

theorem SharedBy.good (h : SharedBy p rest hostRest bs m p') (hp : p.Good options rest hostRest) :
    p'.Good options rest hostRest := by
  have hbs := proper_of_shared h.shared hp
  have hsound := h.sound
  obtain ⟨heap, rfl⟩ := h.state_eq
  refine ⟨hsound, h.shared.options_eq.trans hp.options_eq, ?_, ?_, ?_⟩
  · intro b hb
    exact hp.entries b (h.shared.entries_perm.mem_iff.mp hb)
  · intro b hb
    rcases mem_of_mem_withShared hb with hb | hb
    · exact hbs b hb
    · exact hp.blocks b hb
  · intro b hb
    rw [setKvState_kvState, KVCacheState.withShared_srcBlocks] at hb
    exact hp.src b hb

theorem CachedBy.good (h : CachedBy p rest hostRest bs m p') (hp : p.Good options rest hostRest) :
    p'.Good options rest hostRest := by
  have hsound := h.sound
  have hstate := h.state_eq
  subst hstate
  refine ⟨hsound, h.cached.options_eq.trans hp.options_eq, ?_, ?_, hp.src⟩
  · intro b hb
    have hmem := h.cached.entries_eq ▸ hb
    split at hmem
    · rw [(hp.sound.device.wf.walkStore_perm _).mem_iff, mem_append] at hmem
      rcases hmem with hmem | hmem
      · obtain ⟨a, ha, hcore⟩ := PrefixCache.exists_of_mem_stamped
          ((Lru.walkStored_sublist _ _).subset hmem)
        exact (hp.blocks a ha).of_core hcore
      · exact hp.entries b hmem
    · exact hp.entries b hmem
  · intro b hb
    have hmem : b.core ∈ p.sequence.kvState.blocks.map Block.core := by
      rw [← h.core_eq]
      exact mem_map_of_mem hb
    obtain ⟨a, ha, hcore⟩ := List.mem_map.mp hmem
    exact (hp.blocks a ha).of_core hcore

end

theorem good_of_allocated {bs : List Block} {m : BlockManagerImpl} {n : Nat}
    (hp : p.Good options rest hostRest)
    (hm : Xllm.Sound.Allocated p.rank.blockManager (p.sequence.kvState.handles + rest) n bs m)
    (hsound : ((p.setManager m).setKvState (p.sequence.kvState.addKvBlocks bs)).Sound
      rest hostRest) :
    ((p.setManager m).setKvState (p.sequence.kvState.addKvBlocks bs)).Good
      options rest hostRest := by
  have hentries := hp.entries
  rw [← hp.options_eq] at hentries
  obtain ⟨hentries', hbs⟩ := proper_of_allocated hm hentries
  rw [hp.options_eq] at hentries' hbs
  refine ⟨hsound, hm.options_eq.trans hp.options_eq, hentries', ?_, hp.src⟩
  intro b hb
  rcases List.mem_append.mp hb with hb | hb
  · exact hp.blocks b hb
  · exact hbs b hb

theorem good_of_not_allocated {m : BlockManagerImpl} {n : Nat} (hp : p.Good options rest hostRest)
    (hm : Xllm.Sound.Allocated p.rank.blockManager (p.sequence.kvState.handles + rest) n [] m)
    (hsound : ((p.setManager m).setKvState (p.sequence.kvState.addKvBlocks [])).Sound
      rest hostRest) : (p.setManager m).Good options rest hostRest := by
  have hgood := good_of_allocated hp hm hsound
  simp only [KVCacheState.addKvBlocks, append_nil] at hgood
  exact ⟨⟨hgood.sound.device, hp.sound.host⟩, hgood.options_eq, hgood.entries, hp.blocks, hp.src⟩

theorem Tried.good {shared : List Block} {needsId ok : Bool}
    (h : Tried p (p.sequence.kvState.handles + (handles shared + rest)) shared needsId ok p')
    (hp : p.Good options (handles shared + rest) hostRest) (hsound : p'.Sound rest hostRest) :
    p'.Good options rest hostRest := by
  have hentries := hp.entries
  rw [← hp.options_eq] at hentries
  cases h with
  | grown blocks m heap hm hlen hroom =>
      obtain ⟨hentries', hbs⟩ := proper_of_allocated hm hentries
      rw [hp.options_eq] at hentries' hbs
      refine ⟨hsound, hm.options_eq.trans hp.options_eq, hentries', ?_, hp.src⟩
      intro b hb
      rcases List.mem_append.mp hb with hb | hb
      · exact hp.blocks b hb
      · exact hbs b hb
  | failed m used device host em hm hshort hused hid =>
      obtain ⟨hentries', -⟩ := proper_of_allocated hm hentries
      rw [hp.options_eq] at hentries'
      refine ⟨hsound, hm.options_eq.trans hp.options_eq, hentries', ?_, ?_⟩
      · intro b hb
        by_cases hnil : shared = []
        · simp only [if_pos hnil] at hb
          exact hp.blocks b hb
        · simp only [if_neg hnil] at hb
          cases hb
      · intro b hb
        by_cases hnil : shared = []
        · simp only [if_pos hnil] at hb
          exact hp.src b hb
        · simp only [if_neg hnil] at hb
          exact hp.src b hb

section

theorem Good.drop (hp : p.Good options rest hostRest) (embedding : Bool) :
    IfOk (p.drop embedding) (Good options rest hostRest) :=
  (drop_ensures hp.sound embedding).ifOk.mono_post fun _ h => h.1.good hp h.2

theorem Good.processBeamSearch (hp : p.Good options rest hostRest) (needSwap : Bool) :
    IfOk (p.processBeamSearch needSwap) (fun r => Good options rest hostRest r.2) :=
  (processBeamSearch_ensures hp.sound needSwap).mono (fun _ => False.elim)
    fun _ h => h.1.good hp h.2

theorem Good.allocateEmbeddingId (hp : p.Good options rest hostRest) :
    IfOk p.allocateEmbeddingId (fun r => Good options rest hostRest r.2) :=
  (allocateEmbeddingId_ensures p).ifOk.mono_post fun _ h => h.good hp

theorem Good.allocateMore (hp : p.Good options rest hostRest) (numTokens : Nat)
    (startedEmpty needsId : Bool) : IfOk (p.allocateMore numTokens startedEmpty needsId)
      (fun r => Good options rest hostRest r.2) := by
  refine allocateMore_rule (fun _ => hp.processBeamSearch true)
    (fun _ => hp.processBeamSearch false) ?_
  intro q hq
  refine (allocate_device_ensures hq.sound _).ifOk.mono_post fun r hr => ?_
  split
  · exact good_of_allocated hq hr.1 hr.2
  · rename_i hlen
    have hnil : r.1 = [] := hr.1.length_eq.resolve_right hlen
    rw [hnil] at hr
    rw [rollback]
    split
    · exact (good_of_not_allocated hq hr.1 hr.2).drop needsId
    · exact good_of_not_allocated hq hr.1 hr.2

variable [XXH3]

theorem Good.cache (hp : p.Good options rest hostRest) :
    IfOk p.cache (Good options rest hostRest) := by
  refine (cache_ensures hp.sound).ifOk.mono_post fun p' h => ?_
  obtain ⟨bs, m, h⟩ := h
  exact h.good hp

theorem Good.allocateShared (hp : p.Good options rest hostRest) :
    IfOk p.allocateShared (Good options rest hostRest) := by
  refine (allocateShared_ensures hp.sound).ifOk.mono_post fun p' h => ?_
  obtain ⟨bs, m, h⟩ := h
  exact h.good hp

theorem Good.deallocate (hp : p.Good options rest hostRest) :
    IfOk p.deallocate (Good options rest hostRest) :=
  deallocate_rule hp.cache fun _ hq => hq.drop true

theorem Good.allocate (hp : p.Good options rest hostRest) (numTokens : Nat) :
    IfOk (p.allocate numTokens) (fun r => Good options rest hostRest r.2) := by
  refine allocate_rule (I := Good options rest hostRest) (J := Good options rest hostRest) ?_ ?_ ?_
  · refine hp.allocateEmbeddingId.mono_post fun r hr => ?_
    split <;> exact hr
  · intro q hq
    split
    · exact hq.allocateShared
    · exact hq
  · intro q hq
    exact hq.allocateMore numTokens _ _

theorem Good.tryShared_of {r : List Block × Serving} {m : BlockManagerImpl} {heap : BlockHeap}
    (hp : p.Good options rest hostRest)
    (hshared : Xllm.Sound.Shared p.rank.blockManager (p.sequence.kvState.handles + rest)
      p.sequence.tokens p.existedSharedBlocks r.1 m)
    (hstate : r.2 = (p.setManager { m with heap := heap }).setKvState (p.withTryShared r.1))
    (hsound : r.2.Sound (handles r.1 + rest) hostRest) :
    r.2.Good options (handles r.1 + rest) hostRest := by
  have hbs := proper_of_shared hshared hp
  rw [hstate] at hsound ⊢
  refine ⟨hsound, hshared.options_eq.trans hp.options_eq, ?_, ?_, hp.src⟩
  · intro b hb
    exact hp.entries b (hshared.entries_perm.mem_iff.mp hb)
  · intro b hb
    rcases List.mem_append.mp hb with hb | hb
    · exact hp.blocks b hb
    · exact hbs b hb

theorem Good.tryAllocate (hp : p.Good options rest hostRest) :
    IfOk p.tryAllocate (fun r => Good options rest hostRest r.2) := by
  refine tryAllocate_rule (I := Good options rest hostRest)
    (J := fun bs => Good options (handles bs + rest) hostRest) ?_ ?_ ?_
  · refine hp.allocateEmbeddingId.mono_post fun r hr => ?_
    split <;> exact hr
  · intro q hq
    refine (tryShared_ensures hq.sound).ifOk.mono_post fun r hr => ?_
    obtain ⟨m, heap, hshared, -, hstate, hsound⟩ := hr
    exact hq.tryShared_of hshared hstate hsound
  · intro bs q hq
    exact (tryMore_ensures hq.sound _).ifOk.mono_post fun _ h => h.1.good hq h.2

end

end Serving

structure PoolState where
  rank : DpRank
  sequences : List Sequence

/-- The operations on a rank. Sequences are named by their position. -/
inductive PoolOp where
  | arrive (promptTokenIds : List Token) (capacity beamWidth : Nat)
  | allocate (i numTokens : Nat)
  | tryAllocate (i : Nat)
  | allocateShared (i : Nat)
  | cache (i : Nat)
  | deallocate (i : Nat)
  | forward (i allowedMaxTokens cpSize : Nat) (isPrefill : Bool)
  | appendToken (i : Nat) (token : Token)
  | updateToken (i index : Nat) (token : Token)
  /-- Beam search makes the blocks of sequence `j` the source of sequence `i`. -/
  | setSrcBlocks (i j : Nat) (needSwap : Bool)

namespace PoolState

def create (options hostOptions : Options) (numIds : Nat) (concurrent : Bool) :
    Except Check PoolState := do
  let device ← BlockManagerImpl.create options
  let host ← BlockManagerImpl.create hostOptions
  .ok ⟨⟨device, EmbeddingManager.create numIds, host, concurrent, []⟩, []⟩

/-- A call for the `i`-th sequence; a call for no sequence does nothing. -/
def serve (st : PoolState) (i : Nat) (f : Serving → Except Check Serving) :
    Except Check PoolState :=
  match st.sequences[i]? with
  | none => .ok st
  | some seq => do
      let p ← f ⟨st.rank, seq⟩
      .ok ⟨p.rank, st.sequences.set i p.sequence⟩

def step [XXH3] (st : PoolState) : PoolOp → Except Check PoolState
  | .arrive promptTokenIds capacity beamWidth => do
      let seq ← Sequence.create promptTokenIds capacity beamWidth
      .ok { st with sequences := st.sequences ++ [seq] }
  | .allocate i numTokens => st.serve i fun p => do
      let (_, p) ← p.allocate numTokens
      .ok p
  | .tryAllocate i => st.serve i fun p => do
      let (_, p) ← p.tryAllocate
      .ok p
  | .allocateShared i => st.serve i Serving.allocateShared
  | .cache i => st.serve i Serving.cache
  | .deallocate i => st.serve i Serving.deallocate
  | .forward i allowedMaxTokens cpSize isPrefill => st.serve i fun p => do
      let (_, sequence) ← p.sequence.processSingleSequence allowedMaxTokens cpSize isPrefill
      .ok { p with sequence := sequence }
  | .appendToken i token => st.serve i fun p => do
      let sequence ← p.sequence.appendToken token
      .ok { p with sequence := sequence }
  | .updateToken i index token => st.serve i fun p =>
      .ok { p with sequence := p.sequence.updateToken index token }
  | .setSrcBlocks i j needSwap =>
      match st.sequences[j]? with
      | none => .ok st
      | some other => st.serve i fun p => do
          let (kvState, heap) ← p.sequence.kvState.setSrcBlocks other.kvState.blocks needSwap
            p.rank.blockManager.heap
          .ok ((p.setHeap heap).setKvState kvState)

def deviceHandles (seqs : List Sequence) : Multiset (Handle Int) :=
  (seqs.map fun seq => seq.kvState.handles).sum

def hostHandles (seqs : List Sequence) : Multiset (Handle Int) :=
  (seqs.map fun seq => seq.hostKvState.handles).sum

def others (st : PoolState) (i : Nat) : Multiset (Handle Int) :=
  deviceHandles (st.sequences.eraseIdx i)

/-- The host handles of all sequences but the `i`-th. -/
def hostOthers (st : PoolState) (i : Nat) : Multiset (Handle Int) :=
  hostHandles (st.sequences.eraseIdx i)

structure Inv (options : Options) (st : PoolState) : Prop where
  device : Sound st.rank.blockManager (deviceHandles st.sequences)
  host : Sound st.rank.hostBlockManager (hostHandles st.sequences)
  options_eq : st.rank.blockManager.options = options
  entries : ∀ b ∈ st.rank.blockManager.prefixCache.entries, b.Proper options.blockSize
  blocks : ∀ seq ∈ st.sequences, ∀ b ∈ seq.kvState.blocks, b.Proper options.blockSize
  src : ∀ seq ∈ st.sequences, ∀ b ∈ seq.kvState.srcBlocks, b.Proper options.blockSize

variable {st : PoolState} {options : Options} {seq : Sequence} {i : Nat}

theorem sum_map_set {f : Sequence → Multiset (Handle Int)} {seqs : List Sequence}
    (h : seqs[i]? = some seq) (seq' : Sequence) :
    ((seqs.set i seq').map f).sum = f seq' + ((seqs.eraseIdx i).map f).sum := by
  obtain ⟨hi, rfl⟩ := List.getElem?_eq_some_iff.mp h
  rw [set_eq_take_append_cons_drop, if_pos hi, eraseIdx_eq_take_drop_succ]
  simp only [map_append, sum_append]
  exact add_left_comm _ _ _

theorem sum_map_eraseIdx {f : Sequence → Multiset (Handle Int)} {seqs : List Sequence}
    (h : seqs[i]? = some seq) : (seqs.map f).sum = f seq + ((seqs.eraseIdx i).map f).sum := by
  have hset := sum_map_set (f := f) h seq
  obtain ⟨hi, rfl⟩ := List.getElem?_eq_some_iff.mp h
  rwa [set_getElem_self] at hset

theorem Inv.good (h : Inv options st) (hi : st.sequences[i]? = some seq) :
    Serving.Good options (st.others i) (st.hostOthers i) ⟨st.rank, seq⟩ := by
  have hmem := mem_of_getElem? hi
  refine ⟨⟨?_, ?_⟩, h.options_eq, h.entries, h.blocks seq hmem, h.src seq hmem⟩
  · have hdevice := h.device
    rw [deviceHandles, sum_map_eraseIdx hi] at hdevice
    exact hdevice
  · have hhost := h.host
    rw [hostHandles, sum_map_eraseIdx hi] at hhost
    exact hhost

/-- An operation on one sequence has that sequence to account for and no other. -/
theorem Inv.set {p : Serving} (h : Inv options st) (hi : st.sequences[i]? = some seq)
    (hp : p.Good options (st.others i) (st.hostOthers i)) :
    Inv options ⟨p.rank, st.sequences.set i p.sequence⟩ := by
  refine ⟨?_, ?_, hp.options_eq, hp.entries, ?_, ?_⟩
  · rw [deviceHandles, sum_map_set hi]
    exact hp.sound.device
  · rw [hostHandles, sum_map_set hi]
    exact hp.sound.host
  · intro s hs
    rcases mem_or_eq_of_mem_set hs with hs | rfl
    · exact h.blocks s hs
    · exact hp.blocks
  · intro s hs
    rcases mem_or_eq_of_mem_set hs with hs | rfl
    · exact h.src s hs
    · exact hp.src

theorem Inv.serve {E : Check → Prop} {f : Serving → Except Check Serving} (h : Inv options st)
    (hf : ∀ seq, st.sequences[i]? = some seq → Ensures (f ⟨st.rank, seq⟩) E
      (Serving.Good options (st.others i) (st.hostOthers i))) :
    Ensures (st.serve i f) E (Inv options) := by
  rw [PoolState.serve]
  split
  · exact h
  · rename_i seq hi
    exact (hf seq hi).bind fun p hp => h.set hi hp

theorem Inv.create {hostOptions : Options} {numIds : Nat} {concurrent : Bool}
    (hst : create options hostOptions numIds concurrent = .ok st) :
    Inv options st ∧ st.sequences = [] ∧ st.rank.blockManager.numUsedBlocks = 0 ∧
      st.rank.blockManager.prefixCache.entries = [] := by
  obtain ⟨m, hm, hst⟩ := bind_eq_ok hst
  obtain ⟨n, hn, hst⟩ := bind_eq_ok hst
  cases hst
  obtain ⟨hsound, hoptions, hused, hentries⟩ := Sound.of_create hm
  obtain ⟨hsound', -⟩ := Sound.of_create hn
  refine ⟨⟨hsound, hsound', hoptions, ?_, by simp, by simp⟩, rfl, hused, hentries⟩
  intro b hb
  simp only [hentries] at hb
  cases hb

theorem Inv.arrive (h : Inv options st) (hkv : seq.kvState = {}) (hhost : seq.hostKvState = {}) :
    Inv options { st with sequences := st.sequences ++ [seq] } := by
  refine ⟨?_, ?_, h.options_eq, h.entries, ?_, ?_⟩
  · have hsame : deviceHandles (st.sequences ++ [seq]) = deviceHandles st.sequences := by
      simp [deviceHandles, hkv, KVCacheState.handles]
    rw [hsame]
    exact h.device
  · have hsame : hostHandles (st.sequences ++ [seq]) = hostHandles st.sequences := by
      simp [hostHandles, hhost, KVCacheState.handles]
    rw [hsame]
    exact h.host
  · intro s hs
    rcases List.mem_append.mp hs with hs | hs
    · exact h.blocks s hs
    · simp [List.mem_singleton.mp hs, hkv]
  · intro s hs
    rcases List.mem_append.mp hs with hs | hs
    · exact h.src s hs
    · simp [List.mem_singleton.mp hs, hkv]

theorem good_setSequence {rest hostRest : Multiset (Handle Int)} {p : Serving}
    (hp : p.Good options rest hostRest) {sequence : Sequence}
    (hblocks : sequence.kvState.blocks = p.sequence.kvState.blocks)
    (hsrc : sequence.kvState.srcBlocks = p.sequence.kvState.srcBlocks)
    (hhost : sequence.hostKvState = p.sequence.hostKvState) :
    Serving.Good options rest hostRest { p with sequence := sequence } := by
  have hhandles : sequence.kvState.handles = p.sequence.kvState.handles := by
    rw [KVCacheState.handles, KVCacheState.handles, hblocks, hsrc]
  refine ⟨⟨?_, ?_⟩, hp.options_eq, hp.entries, ?_, ?_⟩
  · rw [hhandles]
    exact hp.sound.device
  · rw [hhost]
    exact hp.sound.host
  · rw [hblocks]
    exact hp.blocks
  · rw [hsrc]
    exact hp.src

theorem Inv.forward (h : Inv options st) (i allowedMaxTokens cpSize : Nat) (isPrefill : Bool) :
    Ensures (st.serve i fun p => do
      let (_, sequence) ← p.sequence.processSingleSequence allowedMaxTokens cpSize isPrefill
      .ok { p with sequence := sequence }) (fun e => e = .batchInput) (Inv options) := by
  refine h.serve fun seq hi => ?_
  refine (Sequence.processSingleSequence_ensures allowedMaxTokens cpSize isPrefill).bind
    fun r hr => ?_
  simp only [hr.2]
  exact good_setSequence (h.good hi) rfl rfl rfl

theorem Inv.appendToken (h : Inv options st) (i : Nat) (token : Token) :
    Ensures (st.serve i fun p => do
      let sequence ← p.sequence.appendToken token
      .ok { p with sequence := sequence }) (fun e => e = .appendToken) (Inv options) := by
  refine h.serve fun seq hi => ?_
  rw [Sequence.appendToken]
  split
  · exact good_setSequence (h.good hi) rfl rfl rfl
  · exact rfl

/-- A beam takes over the blocks of another one. -/
theorem Inv.setSrcBlocks (h : Inv options st) {other : Sequence} (hother : other ∈ st.sequences)
    (i : Nat) (needSwap : Bool) : Yields (st.serve i fun p => do
      let (kvState, heap) ← p.sequence.kvState.setSrcBlocks other.kvState.blocks needSwap
        p.rank.blockManager.heap
      .ok ((p.setHeap heap).setKvState kvState)) (Inv options) := by
  refine h.serve fun seq hi => ?_
  have hgood := h.good hi
  have howned := hgood.sound.device.owned
  have hheld : ∀ b ∈ other.kvState.blocks,
      b.handle ≤ handles st.rank.blockManager.prefixCache.entries +
        (seq.kvState.handles + st.others i) := by
    intro b hb
    have hall : deviceHandles st.sequences = seq.kvState.handles + st.others i :=
      sum_map_eraseIdx hi
    have hle : other.kvState.handles ≤ deviceHandles st.sequences := by
      obtain ⟨j, hj⟩ := mem_iff_getElem?.mp hother
      rw [deviceHandles, sum_map_eraseIdx hj]
      exact Multiset.le_add_right _ _
    rw [← hall]
    exact (((handle_le_handles hb).trans (Multiset.le_add_right _ _)).trans hle).trans
      (Multiset.le_add_left _ _)
  have hcopied := howned.incAll hheld
  have hrearrange : handles other.kvState.blocks +
      (handles st.rank.blockManager.prefixCache.entries + (seq.kvState.handles + st.others i)) =
      handles seq.kvState.srcBlocks + (handles st.rank.blockManager.prefixCache.entries +
        (handles seq.kvState.blocks + handles other.kvState.blocks + st.others i)) := by
    rw [KVCacheState.handles]
    abel
  rw [hrearrange] at hcopied
  refine Ensures.bind (Ensures.bind hcopied.decAll fun heap hheap => ?_)
    (Q := fun r => r.1 =
        { seq.kvState with srcBlocks := other.kvState.blocks, needSwap := needSwap } ∧
      Owned r.2 st.rank.blockManager.paddingBlock
        (handles st.rank.blockManager.prefixCache.entries +
          (handles seq.kvState.blocks + handles other.kvState.blocks + st.others i)) ∧
      r.2.freeBlocks.length = st.rank.blockManager.heap.freeBlocks.length) fun r hr => ?_
  · exact ⟨rfl, hheap.1, hheap.2.trans (by simp)⟩
  · obtain ⟨kvState, heap⟩ := r
    obtain ⟨hkv, howned', hlen⟩ := hr
    subst hkv
    exact ⟨⟨Serving.sound_setHeap hgood.sound.device howned' hlen, hgood.sound.host⟩,
      hgood.options_eq, hgood.entries, hgood.blocks, h.blocks other hother⟩

/-- Step lemma: every operation of the pool keeps the invariant. -/
theorem Inv.step [XXH3] (h : Inv options st) (op : PoolOp) : IfOk (st.step op) (Inv options) := by
  cases op with
  | arrive promptTokenIds capacity beamWidth =>
      exact (Sequence.create_ensures promptTokenIds capacity beamWidth).ifOk |>.bind fun seq hs =>
        h.arrive hs.1 hs.2.1
  | allocate i numTokens =>
      rw [PoolState.step]
      refine h.serve fun seq hi => ?_
      exact ((h.good hi).allocate numTokens).bind fun r hr => hr
  | tryAllocate i =>
      rw [PoolState.step]
      refine h.serve fun seq hi => ?_
      exact (h.good hi).tryAllocate.bind fun r hr => hr
  | allocateShared i => exact h.serve fun seq hi => (h.good hi).allocateShared
  | cache i => exact h.serve fun seq hi => (h.good hi).cache
  | deallocate i => exact h.serve fun seq hi => (h.good hi).deallocate
  | forward i allowedMaxTokens cpSize isPrefill =>
      exact (h.forward i allowedMaxTokens cpSize isPrefill).ifOk
  | appendToken i token =>
      exact (h.appendToken i token).ifOk
  | updateToken i index token =>
      rw [PoolState.step]
      refine h.serve fun seq hi => ?_
      exact good_setSequence (h.good hi) rfl rfl rfl
  | setSrcBlocks i j needSwap =>
      rw [PoolState.step]
      split
      · exact h
      · rename_i other hj
        exact (h.setSrcBlocks (mem_of_getElem? hj) i needSwap).total

end PoolState

end Xllm
