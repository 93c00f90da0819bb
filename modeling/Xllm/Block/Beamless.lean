import Xllm.Block.Accounting

/-!
# Sequences without beams, and their end

Without beam search no sequence has source blocks. Then nothing but its own blocks
keeps a sequence in the ledger, and the end of a sequence is simple: its handles are
dropped. The destructor does not call the block manager, so `num_used_blocks_` is not
counted down. This matters with the prefix cache only: without it the used blocks are
those that are not free.
-/

namespace Xllm

open Contract Ledger List

def BlockManagerImpl.usedBlocks (m : BlockManagerImpl) : Nat :=
  if m.options.enablePrefixCache then m.numUsedBlocks
  else m.heap.freeBlocks.length - 1 - m.heap.numFreeBlocks

namespace Serving

variable {p p' : Serving} {options : Options} {rest hostRest : Multiset (Handle Int)}

/-- The invariant of a sequence without beams. A cache that is not enabled is empty. -/
structure Beamless (options : Options) (rest hostRest : Multiset (Handle Int)) (p : Serving) :
    Prop extends p.Good options rest hostRest where
  src_nil : p.sequence.kvState.srcBlocks = []
  entries_nil : options.enablePrefixCache = false → p.rank.blockManager.prefixCache.entries = []

theorem entries_nil_of_allocated {m m' : BlockManagerImpl} {live : Multiset (Handle Int)} {n : Nat}
    {bs : List Block} (h : Xllm.Sound.Allocated m live n bs m')
    (hm : m.prefixCache.entries = []) : m'.prefixCache.entries = [] := by
  obtain ⟨k, hentries, -⟩ := h.swept
  rw [hentries, hm]
  exact eq_nil_of_subset_nil (Lru.sweep_kept_sublist k _).subset

theorem Beamless.allocateEmbeddingId (hp : p.Beamless options rest hostRest) :
    IfOk p.allocateEmbeddingId (fun r => Beamless options rest hostRest r.2) := by
  refine (allocateEmbeddingId_ensures p).ifOk.mono_post fun r h => ?_
  have hgood := h.good hp.toGood
  obtain ⟨m, b, heq⟩ := h.eq_setEmbedding
  rw [heq] at hgood ⊢
  exact ⟨hgood, hp.src_nil, hp.entries_nil⟩

theorem Beamless.processBeamSearch (hp : p.Beamless options rest hostRest) (needSwap : Bool) :
    p.processBeamSearch needSwap = .ok (true, p) := by
  rw [Serving.processBeamSearch]
  split
  · rfl
  · rw [if_pos hp.src_nil]

theorem Beamless.drop (hp : p.Beamless options rest hostRest) (embedding : Bool) :
    IfOk (p.drop embedding) (fun q => q.Beamless options rest hostRest ∧
      q.sequence.kvState.blocks = []) := by
  refine (drop_ensures hp.sound embedding).ifOk.mono_post fun p' h => ?_
  have hgood := h.1.good hp.toGood h.2
  obtain ⟨used, device, host, m, hused, hm⟩ := h.1
  exact ⟨⟨hgood, hp.src_nil, hp.entries_nil⟩, rfl⟩

theorem Beamless.grow (hp : p.Beamless options rest hostRest) {n : Nat} {bs : List Block}
    {m : BlockManagerImpl}
    (hm : Xllm.Sound.Allocated p.rank.blockManager (p.sequence.kvState.handles + rest) n bs m)
    (hsound : ((p.setManager m).setKvState (p.sequence.kvState.addKvBlocks bs)).Sound
      rest hostRest) :
    ((p.setManager m).setKvState (p.sequence.kvState.addKvBlocks bs)).Beamless
      options rest hostRest :=
  ⟨good_of_allocated hp.toGood hm hsound, hp.src_nil, fun hoff =>
    entries_nil_of_allocated hm (hp.entries_nil hoff)⟩

theorem Beamless.not_grown (hp : p.Beamless options rest hostRest) {n : Nat}
    {m : BlockManagerImpl}
    (hm : Xllm.Sound.Allocated p.rank.blockManager (p.sequence.kvState.handles + rest) n [] m)
    (hsound : ((p.setManager m).setKvState (p.sequence.kvState.addKvBlocks [])).Sound
      rest hostRest) : (p.setManager m).Beamless options rest hostRest :=
  ⟨good_of_not_allocated hp.toGood hm hsound, hp.src_nil, fun hoff =>
    entries_nil_of_allocated hm (hp.entries_nil hoff)⟩

theorem Beamless.allocateMore (hp : p.Beamless options rest hostRest) (numTokens : Nat)
    (startedEmpty needsId : Bool) : IfOk (p.allocateMore numTokens startedEmpty needsId)
      (fun r => Beamless options rest hostRest r.2) := by
  refine allocateMore_rule (I := Beamless options rest hostRest) (fun _ => ?_) (fun _ => ?_) ?_
  · rw [hp.processBeamSearch]
    exact hp
  · rw [hp.processBeamSearch]
    exact hp
  · intro q hq
    refine (allocate_device_ensures hq.sound _).ifOk.mono_post fun r hr => ?_
    split
    · exact hq.grow hr.1 hr.2
    · rename_i hlen
      have hnil : r.1 = [] := hr.1.length_eq.resolve_right hlen
      rw [hnil] at hr
      rw [rollback]
      split
      · exact ((hq.not_grown hr.1 hr.2).drop needsId).mono_post fun _ h => h.1
      · exact hq.not_grown hr.1 hr.2

section

variable [XXH3]

theorem Beamless.allocateShared (hp : p.Beamless options rest hostRest) :
    IfOk p.allocateShared (Beamless options rest hostRest) := by
  refine (allocateShared_ensures hp.sound).ifOk.mono_post fun p' h => ?_
  obtain ⟨bs, m, h⟩ := h
  have hgood := h.good hp.toGood
  obtain ⟨heap, heq⟩ := h.state_eq
  rw [heq] at hgood ⊢
  refine ⟨hgood, ?_, fun hoff => ?_⟩
  · rw [setKvState_kvState, KVCacheState.withShared_srcBlocks]
    exact hp.src_nil
  · have hperm := h.shared.entries_perm
    rw [hp.entries_nil hoff] at hperm
    exact hperm.eq_nil

theorem Beamless.cache (hp : p.Beamless options rest hostRest) :
    IfOk p.cache (Beamless options rest hostRest) := by
  refine (cache_ensures hp.sound).ifOk.mono_post fun p' h => ?_
  obtain ⟨bs, m, h⟩ := h
  have hgood := h.good hp.toGood
  have heq := h.state_eq
  rw [heq] at hgood ⊢
  refine ⟨hgood, hp.src_nil, fun hoff => ?_⟩
  have hentries := h.cached.entries_eq
  rw [hp.options_eq, hoff, hp.entries_nil hoff] at hentries
  exact hentries

theorem Beamless.deallocate (hp : p.Beamless options rest hostRest) :
    IfOk p.deallocate (fun q => q.Beamless options rest hostRest ∧
      q.sequence.kvState.blocks = []) :=
  deallocate_rule hp.cache fun _ hq => hq.drop true

theorem Beamless.allocate (hp : p.Beamless options rest hostRest) (numTokens : Nat) :
    IfOk (p.allocate numTokens) (fun r => Beamless options rest hostRest r.2) := by
  refine allocate_rule (I := Beamless options rest hostRest)
    (J := Beamless options rest hostRest) ?_ ?_ ?_
  · refine hp.allocateEmbeddingId.mono_post fun r hr => ?_
    split <;> exact hr
  · intro q hq
    split
    · exact hq.allocateShared
    · exact hq
  · intro q hq
    exact hq.allocateMore numTokens _ _

/-- `try_allocate` of a sequence without blocks. When it fails, there are none either. -/
theorem Beamless.tryAllocate (hp : p.Beamless options rest hostRest)
    (hempty : p.sequence.kvState.blocks = []) :
    IfOk p.tryAllocate (fun r => Beamless options rest hostRest r.2 ∧
      (r.1 = false → r.2.sequence.kvState.blocks = [])) := by
  refine tryAllocate_rule
    (I := fun q => q.Beamless options rest hostRest ∧ q.sequence.kvState.blocks = [])
    (J := fun bs q => q.Beamless options (handles bs + rest) hostRest ∧
      q.sequence.kvState.blocks = bs) ?_ ?_ ?_
  · refine (hp.allocateEmbeddingId.and (allocateEmbeddingId_ensures p)).ifOk.mono_post
      fun r hr => ?_
    have hblocks : r.2.sequence.kvState.blocks = [] := by
      obtain ⟨m, b, heq⟩ := hr.2.eq_setEmbedding
      rw [heq]
      exact hempty
    split
    · exact ⟨hr.1, hblocks⟩
    · exact ⟨hr.1, fun _ => hblocks⟩
  · rintro q ⟨hq, hnil⟩
    refine (tryShared_ensures hq.sound).ifOk.mono_post fun r hr => ?_
    obtain ⟨m, heap, hshared, -, hstate, hsound⟩ := hr
    have hgood := hq.toGood.tryShared_of hshared hstate hsound
    rw [hstate] at hgood ⊢
    refine ⟨⟨hgood, hq.src_nil, fun hoff => ?_⟩, ?_⟩
    · have hperm := hshared.entries_perm
      rw [hq.entries_nil hoff] at hperm
      exact hperm.eq_nil
    · simp only [setKvState_kvState, withTryShared, hnil, nil_append]
  · rintro bs q ⟨hq, hblocks⟩
    refine (tryMore_ensures hq.sound _).ifOk.mono_post fun r h => ?_
    have hgood := h.1.good hq.toGood h.2
    obtain ⟨ok, q'⟩ := r
    obtain ⟨htried, -⟩ := h
    cases htried with
    | grown blocks m heap hm hlen hroom =>
        have hentries : options.enablePrefixCache = false → m.prefixCache.entries = [] :=
          fun hoff => entries_nil_of_allocated hm (hq.entries_nil hoff)
        exact ⟨⟨hgood, hq.src_nil, hentries⟩, fun h => Bool.noConfusion h⟩
    | failed m used device host em hm hshort hused hid =>
        have hentries : options.enablePrefixCache = false → m.prefixCache.entries = [] :=
          fun hoff => entries_nil_of_allocated hm (hq.entries_nil hoff)
        refine ⟨⟨hgood, ?_, hentries⟩, ?_⟩
        · by_cases hnil : bs = []
          · simp only [if_pos hnil]
            exact hq.src_nil
          · simp only [if_neg hnil]
            exact hq.src_nil
        · intro _
          by_cases hnil : bs = []
          · simp only [if_pos hnil]
            rw [hblocks, hnil]
          · simp only [if_neg hnil]
            rfl

end

/-- The destructor of the sequence: its handles are dropped, and nobody is told. -/
def destroy (p : Serving) : Except Check Serving := do
  let device ← p.rank.blockManager.heap.decAll p.sequence.kvState.blocks
  let device ← device.decAll p.sequence.kvState.srcBlocks
  let host ← p.rank.hostBlockManager.heap.decAll p.sequence.hostKvState.blocks
  let host ← host.decAll p.sequence.hostKvState.srcBlocks
  let embeddingManager ← p.rank.embeddingManager.decRefCount p.sequence.embeddingBlock
  .ok ⟨{ p.rank with
    blockManager := { p.rank.blockManager with heap := device }
    hostBlockManager := { p.rank.hostBlockManager with heap := host }
    embeddingManager := embeddingManager }, {}⟩

theorem decAll_handles {kv : KVCacheState} {s : BlockHeap} {padding : Block}
    {live : Multiset (Handle Int)} (o : Owned s padding (kv.handles + live)) :
    Yields (s.decAll kv.blocks >>= fun t => t.decAll kv.srcBlocks)
      (fun t => Owned t padding live ∧ t.freeBlocks.length = s.freeBlocks.length) := by
  rw [KVCacheState.handles, add_assoc] at o
  refine o.decAll.bind fun t ht => ?_
  exact ht.1.decAll.mono_post fun u hu => ⟨hu.1, hu.2.trans ht.2⟩

theorem destroy_ensures (h : p.Sound rest hostRest) :
    IfOk p.destroy (fun q => q.Sound rest hostRest ∧
      ∃ device host m, q = ⟨{ p.rank with
        blockManager := { p.rank.blockManager with heap := device }
        hostBlockManager := { p.rank.hostBlockManager with heap := host }
        embeddingManager := m }, {}⟩) := by
  have hdevice := h.device.owned
  have hhost := h.host.owned
  rw [add_left_comm] at hdevice hhost
  have hall : p.destroy =
      (p.rank.blockManager.heap.decAll p.sequence.kvState.blocks >>= fun t =>
        t.decAll p.sequence.kvState.srcBlocks) >>= fun device =>
      (p.rank.hostBlockManager.heap.decAll p.sequence.hostKvState.blocks >>= fun t =>
        t.decAll p.sequence.hostKvState.srcBlocks) >>= fun host =>
      p.rank.embeddingManager.decRefCount p.sequence.embeddingBlock >>= fun m =>
      .ok ⟨{ p.rank with
        blockManager := { p.rank.blockManager with heap := device }
        hostBlockManager := { p.rank.hostBlockManager with heap := host }
        embeddingManager := m }, {}⟩ := by
    simp only [destroy, bind_assoc]
  rw [hall]
  refine (decAll_handles hdevice).total.bind fun device hd => ?_
  refine (decAll_handles hhost).total.bind fun host ho => ?_
  refine ensures_any.bind fun m _ => ⟨⟨?_, ?_⟩, device, host, m, rfl⟩
  · have hnone : ({} : Sequence).kvState.handles = 0 := rfl
    rw [hnone, zero_add]
    exact sound_setHeap h.device hd.1 hd.2
  · have hnone : ({} : Sequence).hostKvState.handles = 0 := rfl
    rw [hnone, zero_add]
    exact sound_setHeap h.host ho.1 ho.2

theorem Beamless.destroy (hp : p.Beamless options rest hostRest) :
    IfOk p.destroy (fun q => q.Beamless options rest hostRest ∧
      q.sequence = {}) := by
  refine (destroy_ensures hp.sound).mono_post fun q hq => ?_
  obtain ⟨hsound, device, host, m, rfl⟩ := hq
  exact ⟨⟨⟨hsound, hp.options_eq, hp.entries, forall_mem_nil _, forall_mem_nil _⟩, rfl,
    hp.entries_nil⟩, rfl⟩

theorem Counted.destroy {src₀ : List Block} {mayEmpty : Prop}
    (h : p.Counted options rest hostRest src₀ mayEmpty) (hempty : mayEmpty)
    (hheld : ids p.sequence.kvState.handles ⊆ ids rest) :
    IfOk p.destroy (Counted options rest hostRest src₀ mayEmpty) := by
  refine (destroy_ensures h.good.sound).mono_post fun q hq => ?_
  obtain ⟨hsound, device, host, m, rfl⟩ := hq
  refine ⟨⟨hsound, h.good.options_eq, h.good.entries, forall_mem_nil _,
    forall_mem_nil _⟩, h.enabled, h.distinct, ?_, .inr rfl, fun _ => hempty⟩
  have hused := h.used_eq
  rw [ids_add_of_subset hheld] at hused
  rw [show KVCacheState.handles ({} : Sequence).kvState = 0 from rfl, zero_add]
  exact hused

theorem Beamless.setSequence (hp : p.Beamless options rest hostRest) {sequence : Sequence}
    (hblocks : sequence.kvState.blocks = p.sequence.kvState.blocks)
    (hsrc : sequence.kvState.srcBlocks = p.sequence.kvState.srcBlocks)
    (hhost : sequence.hostKvState = p.sequence.hostKvState) :
    Beamless options rest hostRest { p with sequence := sequence } :=
  ⟨PoolState.good_setSequence hp.toGood hblocks hsrc hhost, hsrc.trans hp.src_nil, hp.entries_nil⟩

end Serving

/-- What a scheduler without beam search does with a sequence. -/
inductive SequenceOp where
  | allocate (numTokens : Nat)
  | allocateShared
  | cache
  | deallocate
  | forward (allowedMaxTokens cpSize : Nat) (isPrefill : Bool)
  | appendToken (token : Token)
  | updateToken (index : Nat) (token : Token)

def SequenceOp.at (op : SequenceOp) (i : Nat) : PoolOp :=
  match op with
  | .allocate numTokens => .allocate i numTokens
  | .allocateShared => .allocateShared i
  | .cache => .cache i
  | .deallocate => .deallocate i
  | .forward allowedMaxTokens cpSize isPrefill => .forward i allowedMaxTokens cpSize isPrefill
  | .appendToken token => .appendToken i token
  | .updateToken index token => .updateToken i index token

namespace PoolState

variable {st : PoolState} {options : Options} {seq : Sequence} {i : Nat}

def destroy (st : PoolState) (i : Nat) : Except Check PoolState := st.serve i Serving.destroy

/-- The invariant of a rank that serves no beams. With the prefix cache the counter has
to be right, too. -/
structure Tidy (options : Options) (st : PoolState) : Prop where
  inv : Inv options st
  src_nil : ∀ seq ∈ st.sequences, seq.kvState.srcBlocks = []
  entries_nil : options.enablePrefixCache = false → st.rank.blockManager.prefixCache.entries = []
  counted : options.enablePrefixCache = true → InvCounted options st

theorem Tidy.beamless (h : Tidy options st) (hi : st.sequences[i]? = some seq) :
    Serving.Beamless options (st.others i) (st.hostOthers i) ⟨st.rank, seq⟩ :=
  ⟨h.inv.good hi, h.src_nil seq (mem_of_getElem? hi), h.entries_nil⟩

theorem Tidy.mayEmpty (h : Tidy options st) (i : Nat) : st.MayEmpty i := .inr h.src_nil

theorem Tidy.set {p : Serving} (h : Tidy options st) (hi : st.sequences[i]? = some seq)
    (hp : p.Beamless options (st.others i) (st.hostOthers i))
    (hcounted : options.enablePrefixCache = true →
      InvCounted options ⟨p.rank, st.sequences.set i p.sequence⟩) :
    Tidy options ⟨p.rank, st.sequences.set i p.sequence⟩ := by
  refine ⟨h.inv.set hi hp.toGood, fun s hs => ?_, hp.entries_nil, hcounted⟩
  rcases mem_or_eq_of_mem_set hs with hs | rfl
  · exact h.src_nil s hs
  · exact hp.src_nil

/-- The step leaves a tidy rank, has changed no sequence but the `i`-th, and `P` holds of it. -/
structure Touched (options : Options) (st : PoolState) (i : Nat) (P : Sequence → Prop)
    (st' : PoolState) : Prop where
  tidy : Tidy options st'
  others : ∀ j, j ≠ i → st'.sequences[j]? = st.sequences[j]?
  self : ∀ seq, st'.sequences[i]? = some seq → P seq

variable {P : Sequence → Prop}

theorem Touched.of_set {st' : PoolState} {seq' : Sequence}
    (htidy : Tidy options st') (hP : P seq') (hset : st'.sequences = st.sequences.set i seq') :
    Touched options st i P st' := by
  refine ⟨htidy, fun j hj => ?_, fun s hs => ?_⟩
  · rw [hset, getElem?_set_ne (Ne.symm hj)]
  · obtain ⟨hlt, hget⟩ := List.getElem?_eq_some_iff.mp hs
    have hs' : (st.sequences.set i seq')[i]? = some s := by rw [← hset, hs]
    rw [hset, List.length_set] at hlt
    rw [getElem?_set_self hlt] at hs'
    rw [← Option.some.inj hs']
    exact hP

theorem Touched.trans {P Q : Sequence → Prop} {st₁ st₂ : PoolState}
    (h : Touched options st i P st₁) (h' : Touched options st₁ i Q st₂) :
    Touched options st i Q st₂ :=
  ⟨h'.tidy, fun j hj => (h'.others j hj).trans (h.others j hj), h'.self⟩

theorem Touched.mono {P Q : Sequence → Prop} {st' : PoolState} (h : Touched options st i P st')
    (hPQ : ∀ seq, P seq → Q seq) : Touched options st i Q st' :=
  ⟨h.tidy, h.others, fun seq hseq => hPQ seq (h.self seq hseq)⟩

theorem Touched.others_eq {st' : PoolState}
    (h : Touched options st i P st') : st'.others i = st.others i := by
  have hsame : st'.sequences.eraseIdx i = st.sequences.eraseIdx i := by
    refine ext_getElem? fun j => ?_
    rw [getElem?_eraseIdx, getElem?_eraseIdx]
    split
    · exact h.others j (by omega)
    · exact h.others (j + 1) (by omega)
  rw [PoolState.others, PoolState.others, hsame]

/-- A call for the `i`-th sequence keeps the invariant if it does so for the sequence and
for the counter. -/
theorem Tidy.serve {f : Serving → Except Check Serving} (h : Tidy options st)
    (hf : ∀ seq, st.sequences[i]? = some seq → IfOk (f ⟨st.rank, seq⟩) (fun q =>
      q.Beamless options (st.others i) (st.hostOthers i) ∧ P q.sequence))
    (hcounted : options.enablePrefixCache = true →
      IfOk (st.serve i f) (InvCounted options)) : IfOk (st.serve i f) (Touched options st i P) := by
  cases hi : st.sequences[i]? with
  | none =>
      have hserve : st.serve i f = .ok st := by rw [PoolState.serve, hi]
      rw [hserve]
      refine ⟨h, fun _ _ => rfl, fun seq hseq => ?_⟩
      rw [hi] at hseq
      cases hseq
  | some seq =>
      have hserve : st.serve i f = f ⟨st.rank, seq⟩ >>= fun p =>
          .ok ⟨p.rank, st.sequences.set i p.sequence⟩ := by
        rw [PoolState.serve, hi]
      have hresult := hf seq hi
      rw [hserve] at hcounted ⊢
      cases hp : f ⟨st.rank, seq⟩ with
      | error e => exact trivial
      | ok p =>
          rw [hp] at hresult hcounted
          exact .of_set (h.set hi hresult.1 hcounted) hresult.2 rfl

theorem Tidy.create {hostOptions : Options} {numIds : Nat} {concurrent : Bool}
    (hst : create options hostOptions numIds concurrent = .ok st) :
    Tidy options st ∧ st.sequences = [] := by
  obtain ⟨hinv, hnone, hused, hentries⟩ := Inv.create hst
  refine ⟨⟨hinv, ?_, fun _ => hentries, fun henabled => ?_⟩, hnone⟩
  · rw [hnone]
    exact forall_mem_nil _
  · refine ⟨hinv, henabled, ?_, ?_, by simp [hnone]⟩
    · rw [BlockManagerImpl.cachedIds, hentries]
      exact nodup_nil
    · rw [hused, hnone]
      rfl

theorem Tidy.arrive (h : Tidy options st) (hkv : seq.kvState = {}) (hhost : seq.hostKvState = {}) :
    Tidy options { st with sequences := st.sequences ++ [seq] } := by
  have hsrc : ∀ s ∈ st.sequences ++ [seq], s.kvState.srcBlocks = [] := by
    intro s hs
    rcases List.mem_append.mp hs with hs | hs
    · exact h.src_nil s hs
    · rw [List.mem_singleton.mp hs, hkv]
  refine ⟨h.inv.arrive hkv hhost, hsrc, h.entries_nil, fun henabled => ?_⟩
  have hcounted := h.counted henabled
  have hsame : deviceHandles (st.sequences ++ [seq]) = deviceHandles st.sequences := by
    simp [deviceHandles, hkv, KVCacheState.handles]
  refine ⟨h.inv.arrive hkv hhost, henabled, hcounted.distinct, ?_, fun _ => hsrc⟩
  rw [hsame]
  exact hcounted.used_eq

theorem Tidy.destroy (h : Tidy options st)
    (hheld : options.enablePrefixCache = true → ∀ seq, st.sequences[i]? = some seq →
      ids (handles seq.kvState.blocks) ⊆ ids (st.others i)) :
    IfOk (st.destroy i) (Touched options st i fun seq => seq = {}) := by
  refine h.serve (fun seq hi => (h.beamless hi).destroy) fun henabled => ?_
  refine (h.counted henabled).serve fun seq hi => ?_
  refine ((h.counted henabled).counted hi).destroy (h.mayEmpty i) ?_
  rw [KVCacheState.handles, h.src_nil _ (mem_of_getElem? hi), handles_nil, add_zero]
  exact hheld henabled seq hi

/-- With nothing cached, the blocks that are not free are those the sequences hold. -/
theorem Inv.card_not_free (h : Inv options st)
    (hentries : st.rank.blockManager.prefixCache.entries = []) :
    st.rank.blockManager.heap.freeBlocks.length - 1 - st.rank.blockManager.heap.numFreeBlocks =
      (ids (deviceHandles st.sequences)).card := by
  have howned := h.device.owned
  rw [hentries, handles_nil, zero_add] at howned
  have hbalanced := howned.balanced
  have hpadding : ids st.rank.blockManager.paddingBlock.handle = {0} := by
    obtain ⟨r, hr⟩ := Option.isSome_iff_exists.mp howned.padding_live
    rw [Block.handle, hr, howned.padding_id]
    rfl
  have hzero : (0 : Int) ∉ ids (deviceHandles st.sequences) := by
    intro hmem
    obtain ⟨k, hk, hid⟩ := mem_ids.mp hmem
    exact howned.nonzero k hk hid
  have hall : st.rank.blockManager.heap.free.toFinset ∪
      ids (st.rank.blockManager.paddingBlock.handle + deviceHandles st.sequences) =
        Finset.Ico (0 : Int) st.rank.blockManager.heap.freeBlocks.length := by
    ext j
    rw [Finset.mem_union, mem_toFinset, mem_ids, ← hbalanced.cover j, Finset.mem_Ico]
    rfl
  have hdisjoint : Disjoint st.rank.blockManager.heap.free.toFinset
      (ids (st.rank.blockManager.paddingBlock.handle + deviceHandles st.sequences)) := by
    rw [Finset.disjoint_right]
    intro j hj
    obtain ⟨k, hk, rfl⟩ := mem_ids.mp hj
    rw [mem_toFinset]
    exact hbalanced.disjoint k hk
  have hcard := congrArg Finset.card hall
  rw [Finset.card_union_of_disjoint hdisjoint, toFinset_card_of_nodup hbalanced.nodup,
    ids_add, hpadding, ← Finset.insert_eq, Finset.card_insert_of_notMem hzero, Int.card_Ico,
      BlockHeap.free, length_take] at hcard
  omega

theorem Tidy.usedBlocks_eq (h : Tidy options st) :
    st.rank.blockManager.usedBlocks = (ids (deviceHandles st.sequences)).card := by
  rw [BlockManagerImpl.usedBlocks, h.inv.options_eq]
  cases henabled : options.enablePrefixCache with
  | true => exact (h.counted henabled).used_eq
  | false => exact h.inv.card_not_free (h.entries_nil henabled)

section

variable [XXH3]

theorem Tidy.appendToken (h : Tidy options st) (i : Nat) (token : Token) :
    IfOk (st.step (.appendToken i token)) (Touched options st i fun seq' =>
      ∃ seq, st.sequences[i]? = some seq ∧ seq'.kvState.blocks = seq.kvState.blocks) := by
  have hcounted : options.enablePrefixCache = true →
      IfOk (st.step (.appendToken i token)) (InvCounted options) :=
    fun henabled => ((h.counted henabled).step
      (show st.CountKept (.appendToken i token) from trivial)).ifOk
  rw [PoolState.step] at hcounted ⊢
  refine h.serve (fun seq hi => ?_) hcounted
  simp only [Sequence.appendToken]
  split
  · exact ⟨(h.beamless hi).setSequence rfl rfl rfl, seq, hi, rfl⟩
  · exact trivial

theorem Tidy.updateToken (h : Tidy options st) (i index : Nat) (token : Token) :
    IfOk (st.step (.updateToken i index token)) (Touched options st i fun seq' =>
        ∃ seq, st.sequences[i]? = some seq ∧ seq'.kvState.blocks = seq.kvState.blocks) := by
  have hcounted : options.enablePrefixCache = true →
      IfOk (st.step (.updateToken i index token)) (InvCounted options) :=
    fun henabled => ((h.counted henabled).step
      (show st.CountKept (.updateToken i index token) from trivial)).ifOk
  rw [PoolState.step] at hcounted ⊢
  refine h.serve (fun seq hi => ?_) hcounted
  exact ⟨(h.beamless hi).setSequence rfl rfl rfl, seq, hi, rfl⟩

theorem Tidy.deallocate (h : Tidy options st)
    (hop : options.enablePrefixCache = true → st.CountKept (.deallocate i)) :
    IfOk (st.step (.deallocate i)) (Touched options st i fun seq => seq.kvState.blocks = []) :=
  h.serve (fun _ hi => (h.beamless hi).deallocate) fun henabled =>
    ((h.counted henabled).step (hop henabled)).ifOk

/-- Step lemma. -/
theorem Tidy.step (h : Tidy options st) (op : SequenceOp)
    (hop : options.enablePrefixCache = true → st.CountKept (op.at i)) :
    IfOk (st.step (op.at i)) (Touched options st i fun _ => True) := by
  have hcounted : options.enablePrefixCache = true →
      IfOk (st.step (op.at i)) (InvCounted options) := fun henabled =>
    ((h.counted henabled).step (hop henabled)).ifOk
  cases op with
  | allocate numTokens =>
      rw [SequenceOp.at, PoolState.step] at hcounted ⊢
      refine h.serve (fun seq hi => ?_) hcounted
      exact ((h.beamless hi).allocate numTokens).bind fun r hr => ⟨hr, trivial⟩
  | allocateShared =>
      exact h.serve (fun seq hi => (h.beamless hi).allocateShared.mono_post fun q hq =>
        ⟨hq, trivial⟩) hcounted
  | cache =>
      exact h.serve (fun seq hi => (h.beamless hi).cache.mono_post fun q hq =>
        ⟨hq, trivial⟩) hcounted
  | deallocate => exact (h.deallocate hop).mono_post fun _ ht => ht.mono fun _ _ => trivial
  | forward allowedMaxTokens cpSize isPrefill =>
      rw [SequenceOp.at, PoolState.step] at hcounted ⊢
      refine h.serve (fun seq hi => ?_) hcounted
      refine (Sequence.processSingleSequence_ensures allowedMaxTokens cpSize isPrefill).ifOk.bind
        fun r hr => ?_
      simp only [hr.2]
      exact ⟨(h.beamless hi).setSequence rfl rfl rfl, trivial⟩
  | appendToken token =>
      exact (h.appendToken i token).mono_post fun _ ht => ht.mono fun _ _ => trivial
  | updateToken index token =>
      exact (h.updateToken i index token).mono_post fun _ ht => ht.mono fun _ _ => trivial

def tryAllocate (st : PoolState) (i : Nat) : Except Check (Bool × PoolState) :=
  match st.sequences[i]? with
  | none => .ok (false, st)
  | some seq => do
      let (ok, p) ← Serving.tryAllocate ⟨st.rank, seq⟩
      .ok (ok, ⟨p.rank, st.sequences.set i p.sequence⟩)

theorem Tidy.tryAllocate (h : Tidy options st) (hi : st.sequences[i]? = some seq)
    (hempty : seq.kvState.blocks = [])
    (hop : options.enablePrefixCache = true → st.CountKept (.tryAllocate i)) :
    IfOk (st.tryAllocate i) (fun r => Touched options st i
      (fun seq' => r.1 = false → seq'.kvState.blocks = []) r.2) := by
  rw [PoolState.tryAllocate, hi]
  refine Ensures.bind (Q := fun r => (r.2.Beamless options (st.others i) (st.hostOthers i) ∧
      (r.1 = false → r.2.sequence.kvState.blocks = [])) ∧
      (options.enablePrefixCache = true →
        InvCounted options ⟨r.2.rank, st.sequences.set i r.2.sequence⟩)) ?_ ?_
  · refine Serving.ensures_with ((h.beamless hi).tryAllocate hempty) ?_
    cases henabled : options.enablePrefixCache with
    | false => exact ensures_any.mono_post fun r _ h => Bool.noConfusion h
    | true =>
        have hcounted := h.counted henabled
        refine ((hcounted.counted hi).tryAllocate (hop henabled seq hi)).ifOk.mono_post
          fun r hr _ => hcounted.set hi hr
  · rintro ⟨ok, p⟩ ⟨⟨hp, hnil⟩, hcounted⟩
    exact .of_set (h.set hi hp hcounted) hnil rfl

end

end PoolState

end Xllm
