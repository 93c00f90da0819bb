import Xllm.Block.Held
import Xllm.Batch.SwapBlocks

/-!
# The block copies of one scheduling pass

`process_beam_search` of the pool records a copy when a beam has to take over its source
with a last block of its own. A pass of the scheduler records the copies of all beams that
it allocates, and the builder sorts them afterwards. The source of a copy is held by the
beam that reads it, so no copy writes a block that a later one reads. A block that was
released in the pass may be handed out again, however: sorting then keeps the effect of the
pass as long as the copy that reuses it does not sort in front of the copies that used it.
-/

namespace Xllm

open Contract Ledger Copies List

theorem KVCacheState.processBeamSearch_src (kv : KVCacheState) (newBlock : Option Block)
    (s : BlockHeap) : IfOk (kv.processBeamSearch newBlock s) (fun r => r.1.srcBlocks = []) := by
  refine ensures_any.bind fun s _ => ?_
  cases newBlock with
  | none => exact rfl
  | some b => exact ensures_any.bind fun _ _ => rfl

namespace Serving

def lastSource (p : Serving) : Int := (p.sequence.kvState.srcBlocks.getLast?.map Block.id).getD 0

/-- The state in which `allocate` compares the blocks with the tokens: the sequence has its
embedding id, and an empty one has its shared blocks. -/
def prepared [XXH3] (p : Serving) : Option Serving :=
  match p.allocateEmbeddingId with
  | .ok (true, q) => if p.sequence.kvState.numKvBlocks = 0 then
      q.allocateShared.toOption else some q
  | _ => none

/-- The block into which `process_beam_search` copies the last source block, when `allocate`
asks it to swap. -/
def copyBlock (p : Serving) (numTokens : Nat) : Option Block :=
  if (numTokens + p.blockSize - 1) / p.blockSize ≤ p.sequence.kvState.numKvBlocks ∧
      p.sequence.checkBeamSearch = true ∧ p.sequence.kvState.srcBlocks ≠ [] ∧
      p.sequence.kvState.needSwap = true then
    match p.rank.blockManager.allocate 1 with
    | .ok (b :: _, _) => some b
    | _ => none
  else none

/-- A copy into a block that an earlier copy read or wrote does not have a smaller source. -/
def CopyInOrder [XXH3] (p : Serving) (numTokens : Nat) : Prop :=
  ∀ q ∈ p.prepared, ∀ b ∈ q.copyBlock numTokens, ∀ c ∈ p.rank.swapBlockTransferInfos,
    c.1 = b.id ∨ c.2 = b.id → c.1 ≤ q.lastSource

instance [XXH3] (p : Serving) (numTokens : Nat) : Decidable (p.CopyInOrder numTokens) :=
  inferInstanceAs (Decidable (∀ _ ∈ _, _))

/-- A call that records no copy and takes no new source. -/
structure Quiet (p q : Serving) : Prop where
  infos : q.rank.swapBlockTransferInfos = p.rank.swapBlockTransferInfos
  src : q.sequence.kvState.srcBlocks ⊆ p.sequence.kvState.srcBlocks

/-- A call that records a copy into a new block: nobody but the prefix cache had it. -/
structure Copied [XXH3] (p : Serving) (rest : Multiset (Handle Int)) (numTokens : Nat)
    (q : Serving) : Prop where
  copy : ∃ r ∈ p.prepared, ∃ b ∈ r.copyBlock numTokens,
    (∃ a ∈ p.sequence.kvState.srcBlocks, a.id = r.lastSource ∧ a.id ≠ b.id) ∧ b.id ∉ ids rest ∧
    q.rank.swapBlockTransferInfos = p.rank.swapBlockTransferInfos ++ [(r.lastSource, b.id)]
  src : q.sequence.kvState.srcBlocks = []

theorem Quiet.refl (p : Serving) : p.Quiet p := ⟨rfl, Subset.refl _⟩

theorem Quiet.trans {p q r : Serving} (h : p.Quiet q) (h' : q.Quiet r) : p.Quiet r :=
  ⟨h'.infos.trans h.infos, List.Subset.trans h'.src h.src⟩

variable {p : Serving} {options : Options} {rest hostRest : Multiset (Handle Int)}

theorem lastSource_mem (h : p.sequence.kvState.srcBlocks ≠ []) :
    ∃ a ∈ p.sequence.kvState.srcBlocks, a.id = p.lastSource := by
  refine ⟨_, getLast_mem h, ?_⟩
  rw [lastSource, getLast?_eq_some_getLast h]
  rfl

theorem Embedded.quiet {ok : Bool} {q : Serving} (h : Embedded p ok q) : p.Quiet q := by
  obtain ⟨m, b, rfl⟩ := h.eq_setEmbedding
  exact ⟨rfl, Subset.refl _⟩

theorem Dropped.quiet {embedding : Bool} {q : Serving} (h : Dropped p embedding q) :
    p.Quiet q := by
  cases h with
  | drop used device host m hused hm => exact ⟨rfl, Subset.refl _⟩

theorem drop_quiet (hp : p.Good options rest hostRest) (embedding : Bool) :
    IfOk (p.drop embedding) p.Quiet :=
  (drop_ensures hp.sound embedding).ifOk.mono_post fun _ h => h.1.quiet

theorem processBeamSearch_quiet (hp : p.Good options rest hostRest) :
    IfOk (p.processBeamSearch false) (fun r => p.Quiet r.2) := by
  refine (processBeamSearch_ensures hp.sound false).ifOk.mono_post fun r hr => ?_
  obtain ⟨ok, q⟩ := r
  cases hr.1 with
  | idle h => exact .refl _
  | full m hbeam hsrc hswap hm => exact absurd hswap.1 Bool.false_ne_true
  | swapped b m heap hbeam hsrc hswap hm => exact absurd hswap.1 Bool.false_ne_true
  | taken heap hbeam hsrc hswap => exact ⟨rfl, nil_subset _⟩

theorem processBeamSearch_copied (hp : p.Good options rest hostRest) :
    IfOk (p.processBeamSearch true) (fun r => p.Quiet r.2 ∨
      (p.sequence.checkBeamSearch = true ∧ p.sequence.kvState.srcBlocks ≠ [] ∧
        p.sequence.kvState.needSwap = true) ∧
      (∃ b bs m, p.rank.blockManager.allocate 1 = .ok (b :: bs, m) ∧
        b.id ∉ ids (p.sequence.kvState.handles + rest) ∧
        r.2.rank.swapBlockTransferInfos =
          p.rank.swapBlockTransferInfos ++ [(p.lastSource, b.id)]) ∧
      r.2.sequence.kvState.srcBlocks = []) := by
  rw [processBeamSearch]
  by_cases hbeam : p.sequence.checkBeamSearch = true
  swap
  · rw [if_pos (by simpa using hbeam)]
    exact .inl (.refl p)
  rw [if_neg (by simp [hbeam])]
  by_cases hsrc : p.sequence.kvState.srcBlocks = []
  · rw [if_pos hsrc]
    exact .inl (.refl p)
  rw [if_neg hsrc]
  by_cases hswap : p.sequence.kvState.needSwap = true
  · rw [if_pos (by simp [hswap])]
    have hfresh := hp.sound.device.allocate 1
    cases halloc : p.rank.blockManager.allocate 1 with
    | error e => exact trivial
    | ok r =>
        rw [halloc] at hfresh
        obtain ⟨newBlocks, m⟩ := r
        cases newBlocks with
        | nil => exact .inl ⟨rfl, Subset.refl _⟩
        | cons b bs =>
            have hnew := (Xllm.Sound.Allocated.fresh_ids hfresh).2 b mem_cons_self
            rw [ok_bind]
            refine Ensures.bind (KVCacheState.processBeamSearch_src _ _ _) fun q hq => ?_
            exact .inr ⟨⟨hbeam, hsrc, hswap⟩, ⟨b, bs, m, rfl, hnew, rfl⟩, hq⟩
  · rw [if_neg (by simpa using hswap)]
    refine Ensures.bind (KVCacheState.processBeamSearch_src _ _ _) fun q hq => .inl ⟨rfl, ?_⟩
    rw [setKvState_kvState, hq]
    exact nil_subset _

theorem allocateMore_recorded {p₀ : Serving} {numTokens : Nat} {startedEmpty needsId : Bool}
    [XXH3] (hp : p.Good options rest hostRest) (hquiet : p₀.Quiet p)
    (hprepared : p₀.prepared = some p) : IfOk (p.allocateMore numTokens startedEmpty needsId)
      (fun r => p₀.Quiet r.2 ∨ p₀.Copied rest numTokens r.2) := by
  refine allocateMore_rule (I := fun q => p₀.Quiet q ∧ q.Good options rest hostRest) ?_ ?_ ?_
  · intro henough
    refine (processBeamSearch_copied hp).mono_post fun r hr => ?_
    rcases hr with hr | ⟨⟨hbeam, hsrc, hswap⟩, ⟨b, bs, m, halloc, hnew, hinfos⟩, hnil⟩
    · exact .inl (hquiet.trans hr)
    · refine .inr ⟨⟨p, hprepared, b, ?_, ?_, ?_, ?_⟩, hnil⟩
      · rw [copyBlock, if_pos ⟨henough, hbeam, hsrc, hswap⟩, halloc]
        exact rfl
      · obtain ⟨a, ha, hlast⟩ := lastSource_mem hsrc
        refine ⟨a, hquiet.src ha, hlast, fun heq => hnew ?_⟩
        rw [← heq, KVCacheState.handles, ids_add, ids_add, Finset.mem_union, Finset.mem_union]
        exact .inl (.inr (id_mem_ids_handles ha (hp.src a ha).1))
      · intro hmem
        refine hnew ?_
        rw [ids_add, Finset.mem_union]
        exact .inr hmem
      · rw [hinfos, hquiet.infos]
  · intro _
    refine ((processBeamSearch_quiet hp).and (hp.processBeamSearch false)).ifOk.mono_post
      fun r hr => ⟨hquiet.trans hr.1, hr.2⟩
  · rintro q ⟨hq, hgood⟩
    refine (allocate_device_ensures hgood.sound _).ifOk.mono_post fun r hr => ?_
    have hset : q.Quiet (q.setManager r.2) := ⟨rfl, Subset.refl _⟩
    split
    · exact .inl (hq.trans ⟨rfl, Subset.refl _⟩)
    · rename_i hlen
      have hnil : r.1 = [] := hr.1.length_eq.resolve_right hlen
      rw [hnil] at hr
      rw [rollback]
      split
      · refine (drop_quiet (good_of_not_allocated hgood hr.1 hr.2) needsId).mono_post
          fun s hs => .inl ((hq.trans hset).trans hs)
      · exact .inl (hq.trans hset)

section

variable [XXH3]

theorem allocateShared_quiet (hp : p.Good options rest hostRest) :
    IfOk p.allocateShared p.Quiet := by
  refine (allocateShared_ensures hp.sound).ifOk.mono_post fun q hq => ?_
  obtain ⟨bs, m, hq⟩ := hq
  obtain ⟨heap, rfl⟩ := hq.state_eq
  refine ⟨rfl, ?_⟩
  rw [setKvState_kvState, KVCacheState.withShared_srcBlocks]
  exact Subset.refl _

theorem allocate_recorded (hp : p.Good options rest hostRest) (numTokens : Nat) :
    IfOk (p.allocate numTokens) (fun r => p.Quiet r.2 ∨ p.Copied rest numTokens r.2) := by
  refine allocate_rule
    (I := fun q => p.allocateEmbeddingId = .ok (true, q) ∧ p.Quiet q ∧ q.Good options rest hostRest)
    (J := fun q => p.prepared = some q ∧ p.Quiet q ∧ q.Good options rest hostRest) ?_ ?_ ?_
  · refine ensures_of_forall_ok fun r hr => ?_
    have hquiet : p.Quiet r.2 := ((allocateEmbeddingId_ensures p).of_ok hr).quiet
    have hgood := hp.allocateEmbeddingId.of_ok hr
    obtain ⟨ok, q⟩ := r
    cases ok with
    | false => exact .inl hquiet
    | true => exact ⟨hr, hquiet, hgood⟩
  · rintro q ⟨hok, hquiet, hgood⟩
    split
    · rename_i hempty
      refine ensures_of_forall_ok fun r hr => ?_
      refine ⟨?_, hquiet.trans ((allocateShared_quiet hgood).of_ok hr),
        hgood.allocateShared.of_ok hr⟩
      rw [prepared, hok]
      simp only [if_pos hempty, hr]
      rfl
    · rename_i hblocks
      refine ⟨?_, hquiet, hgood⟩
      rw [prepared, hok]
      simp only [if_neg hblocks]
  · rintro q ⟨hprepared, hquiet, hgood⟩
    exact allocateMore_recorded hgood hquiet hprepared

theorem cache_quiet (hp : p.Good options rest hostRest) : IfOk p.cache p.Quiet := by
  refine (cache_ensures hp.sound).ifOk.mono_post fun q hq => ?_
  obtain ⟨bs, m, hq⟩ := hq
  rw [hq.state_eq]
  exact ⟨rfl, Subset.refl _⟩

theorem deallocate_quiet (hp : p.Good options rest hostRest) : IfOk p.deallocate p.Quiet := by
  refine deallocate_rule (I := fun q => p.Quiet q ∧ q.Good options rest hostRest)
    (((cache_quiet hp).and hp.cache).ifOk) ?_
  rintro q ⟨hquiet, hgood⟩
  exact (drop_quiet hgood true).mono_post fun _ h => hquiet.trans h

theorem tryAllocate_quiet (hp : p.Good options rest hostRest) :
    IfOk p.tryAllocate (fun r => p.Quiet r.2) := by
  refine tryAllocate_rule (I := fun q => p.Quiet q ∧ q.Good options rest hostRest)
    (J := fun bs q => p.Quiet q ∧ q.Good options (handles bs + rest) hostRest) ?_ ?_ ?_
  · refine ensures_of_forall_ok fun r hr => ?_
    have hquiet : p.Quiet r.2 := ((allocateEmbeddingId_ensures p).of_ok hr).quiet
    split
    · exact ⟨hquiet, hp.allocateEmbeddingId.of_ok hr⟩
    · exact hquiet
  · rintro q ⟨hquiet, hgood⟩
    refine (tryShared_ensures hgood.sound).ifOk.mono_post fun r hr => ?_
    obtain ⟨m, heap, hshared, -, hstate, hsound⟩ := hr
    refine ⟨hquiet.trans ?_, hgood.tryShared_of hshared hstate hsound⟩
    rw [hstate]
    exact ⟨rfl, Subset.refl _⟩
  · rintro bs q ⟨hquiet, hgood⟩
    refine (tryMore_ensures hgood.sound _).ifOk.mono_post fun r hr => ?_
    refine hquiet.trans ?_
    obtain ⟨ok, r⟩ := r
    cases hr.1 with
    | grown blocks m heap hm hlen hroom => exact ⟨rfl, Subset.refl _⟩
    | failed m used device host em hm hshort hused hid =>
        refine ⟨rfl, ?_⟩
        split
        · exact Subset.refl _
        · exact Subset.refl _

end

end Serving

/-- Beam search sets its sources after the model has run, so a pass does not. -/
def PoolOp.InPass : PoolOp → Prop
  | .setSrcBlocks _ _ _ => False
  | _ => True

instance : DecidablePred PoolOp.InPass
  | .setSrcBlocks .. => inferInstanceAs (Decidable False)
  | .arrive .. | .allocate .. | .tryAllocate _ | .allocateShared _ | .cache _ | .deallocate _
  | .forward .. | .appendToken .. | .updateToken .. => inferInstanceAs (Decidable True)

namespace PoolState

/-- `reset_transfer_infos`, after a batch has been executed. -/
def resetTransferInfos (st : PoolState) : PoolState :=
  { st with rank := { st.rank with swapBlockTransferInfos := [] } }

/-- If the operation records a copy, the copy does not sort in front of copies that used its
destination. -/
def CopyInOrder [XXH3] (st : PoolState) : PoolOp → Prop
  | .allocate i numTokens => ∀ seq ∈ st.sequences[i]?,
      Serving.CopyInOrder ⟨st.rank, seq⟩ numTokens
  | _ => True

instance [XXH3] (st : PoolState) : DecidablePred st.CopyInOrder
  | .allocate .. => inferInstanceAs (Decidable (∀ _ ∈ _, _))
  | .arrive .. | .tryAllocate _ | .allocateShared _ | .cache _ | .deallocate _ | .forward ..
  | .appendToken .. | .updateToken .. | .setSrcBlocks .. => inferInstanceAs (Decidable True)

/-- What holds all through a pass: copies that do not commute have growing sources, and no
source that is still to be used is the destination of a copy. -/
structure PassInv (options : Options) (st : PoolState) : Prop where
  inv : Inv options st
  ordered : st.rank.swapBlockTransferInfos.Pairwise fun a b => Commute a b ∨ a.1 < b.1
  apart : ∀ seq ∈ st.sequences, ∀ b ∈ seq.kvState.srcBlocks,
    ∀ c ∈ st.rank.swapBlockTransferInfos, c.2 ≠ b.id

variable {st : PoolState} {options : Options} {seq : Sequence} {i : Nat}

theorem Inv.pass (h : Inv options st) : PassInv options st.resetTransferInfos where
  inv := ⟨h.device, h.host, h.options_eq, h.entries, h.blocks, h.src⟩
  ordered := List.Pairwise.nil
  apart := fun _ _ _ _ _ hc => absurd hc not_mem_nil

theorem id_mem_ids_others (h : Inv options st) {s : Sequence} (hs : s ∈ st.sequences.eraseIdx i)
    {b : Block} (hb : b ∈ s.kvState.srcBlocks) : b.id ∈ ids (st.others i) := by
  have hproper := h.src s (mem_of_mem_eraseIdx hs) b hb
  obtain ⟨k, hk, heq⟩ := mem_ids.mp (id_mem_ids_handles hb hproper.1)
  refine mem_ids.mpr ⟨k, ?_, heq⟩
  obtain ⟨j, hj⟩ := mem_iff_getElem?.mp hs
  rw [others, deviceHandles, sum_map_eraseIdx hj]
  exact Multiset.mem_add.mpr (.inl (Multiset.mem_add.mpr (.inr hk)))

theorem mem_set_cases {s seq' : Sequence} (h : s ∈ st.sequences.set i seq') :
    s ∈ st.sequences.eraseIdx i ∨ s = seq' := by
  obtain ⟨j, hj⟩ := mem_iff_getElem?.mp h
  by_cases hij : j = i
  · subst hij
    have hlt : j < st.sequences.length := by
      have hlt := (List.getElem?_eq_some_iff.mp hj).1
      rwa [List.length_set] at hlt
    rw [getElem?_set_self hlt] at hj
    exact .inr (Option.some.inj hj).symm
  · rw [getElem?_set_ne (Ne.symm hij)] at hj
    exact .inl (mem_eraseIdx_iff_getElem?.mpr ⟨j, hij, hj⟩)

theorem PassInv.set_quiet {p : Serving} (h : PassInv options st)
    (hi : st.sequences[i]? = some seq) (hp : p.Good options (st.others i) (st.hostOthers i))
    (hquiet : Serving.Quiet ⟨st.rank, seq⟩ p) :
    PassInv options ⟨p.rank, st.sequences.set i p.sequence⟩ := by
  refine ⟨h.inv.set hi hp, ?_, ?_⟩
  · rw [hquiet.infos]
    exact h.ordered
  · rw [hquiet.infos]
    intro s hs
    rcases mem_set_cases hs with hs | rfl
    · exact h.apart s (mem_of_mem_eraseIdx hs)
    · exact fun b hb => h.apart seq (mem_of_getElem? hi) b (hquiet.src hb)

theorem PassInv.set_copied [XXH3] {p : Serving} {numTokens : Nat} (h : PassInv options st)
    (hi : st.sequences[i]? = some seq) (hp : p.Good options (st.others i) (st.hostOthers i))
    (horder : Serving.CopyInOrder ⟨st.rank, seq⟩ numTokens)
    (hcopied : Serving.Copied ⟨st.rank, seq⟩ (st.others i) numTokens p) :
    PassInv options ⟨p.rank, st.sequences.set i p.sequence⟩ := by
  obtain ⟨⟨r, hr, b, hb, ⟨a, ha, hlast, hne⟩, hnew, hinfos⟩, hnil⟩ := hcopied
  refine ⟨h.inv.set hi hp, ?_, ?_⟩
  · rw [hinfos, pairwise_append]
    refine ⟨h.ordered, pairwise_singleton _ _, ?_⟩
    intro c hc d hd
    rw [List.mem_singleton.mp hd]
    have hread : c.2 ≠ r.lastSource :=
      hlast ▸ h.apart seq (mem_of_getElem? hi) a ha c hc
    by_cases hused : c.1 = b.id ∨ c.2 = b.id
    · rcases (horder r hr b hb c hc hused).lt_or_eq with hlt | heq
      · exact .inr hlt
      · -- The same source: the copy is recorded a second time.
        exact .inl ⟨fun hd => absurd hd hread, fun hd => hd.trans heq, fun _ => heq⟩
    · obtain ⟨hsrc, hdst⟩ := not_or.mp hused
      exact .inl ⟨fun hd => absurd hd hread, fun hd => absurd hd.symm hsrc,
        fun hd => absurd hd hdst⟩
  · rw [hinfos]
    intro s hs
    rcases mem_set_cases hs with hs | rfl
    · intro a' ha' c hc
      rcases List.mem_append.mp hc with hc | hc
      · exact h.apart s (mem_of_mem_eraseIdx hs) a' ha' c hc
      · have hheld := id_mem_ids_others h.inv hs ha'
        intro heq
        rw [← heq, List.mem_singleton.mp hc] at hheld
        exact hnew hheld
    · rw [hnil]
      exact fun _ ha' => absurd ha' not_mem_nil

theorem PassInv.serve_quiet {f : Serving → Except Check Serving} (h : PassInv options st)
    (hgood : ∀ seq, st.sequences[i]? = some seq → IfOk (f ⟨st.rank, seq⟩)
      (Serving.Good options (st.others i) (st.hostOthers i)))
    (hquiet : ∀ seq, st.sequences[i]? = some seq → IfOk (f ⟨st.rank, seq⟩)
      (Serving.Quiet ⟨st.rank, seq⟩)) : IfOk (st.serve i f) (PassInv options) := by
  rw [serve]
  split
  · exact h
  · rename_i seq hi
    refine Ensures.bind (((hgood seq hi).and (hquiet seq hi)).ifOk) fun p hp => ?_
    exact h.set_quiet hi hp.1 hp.2

theorem PassInv.serve_tokens {f : Serving → Except Check Serving} (h : PassInv options st)
    (hf : ∀ seq, st.sequences[i]? = some seq → IfOk (f ⟨st.rank, seq⟩)
      fun q => ∃ sequence, q = ⟨st.rank, sequence⟩ ∧
        sequence.kvState.blocks = seq.kvState.blocks ∧
        sequence.kvState.srcBlocks = seq.kvState.srcBlocks ∧
        sequence.hostKvState = seq.hostKvState) : IfOk (st.serve i f) (PassInv options) := by
  refine h.serve_quiet (fun seq hi => ?_) fun seq hi => ?_
  · refine (hf seq hi).mono_post fun q hq => ?_
    obtain ⟨sequence, rfl, hblocks, hsrc, hhost⟩ := hq
    exact good_setSequence (h.inv.good hi) hblocks hsrc hhost
  · refine (hf seq hi).mono_post fun q hq => ?_
    obtain ⟨sequence, rfl, -, hsrc, -⟩ := hq
    exact ⟨rfl, hsrc ▸ Subset.refl _⟩

theorem PassInv.arrive (h : PassInv options st) (hkv : seq.kvState = {})
    (hhost : seq.hostKvState = {}) :
    PassInv options { st with sequences := st.sequences ++ [seq] } := by
  refine ⟨h.inv.arrive hkv hhost, h.ordered, fun s hs => ?_⟩
  rcases List.mem_append.mp hs with hs | hs
  · exact h.apart s hs
  · rw [List.mem_singleton.mp hs, hkv]
    exact fun _ hb => absurd hb not_mem_nil

variable [XXH3]

theorem PassInv.step (h : PassInv options st) {op : PoolOp} (hpass : op.InPass)
    (horder : st.CopyInOrder op) : IfOk (st.step op) (PassInv options) := by
  cases op with
  | arrive promptTokenIds capacity beamWidth =>
      exact (Sequence.create_ensures promptTokenIds capacity beamWidth).ifOk |>.bind fun seq hs =>
        h.arrive hs.1 hs.2.1
  | allocate i numTokens =>
      rw [PoolState.step, serve]
      split
      · exact h
      · rename_i seq hi
        have hgood := h.inv.good hi
        have hcall : IfOk (Serving.allocate ⟨st.rank, seq⟩ numTokens >>= fun r => .ok r.2)
            (fun p => Serving.Good options (st.others i) (st.hostOthers i) p ∧
              (Serving.Quiet ⟨st.rank, seq⟩ p ∨
                Serving.Copied ⟨st.rank, seq⟩ (st.others i) numTokens p)) :=
          Ensures.bind (((hgood.allocate numTokens).and
            (Serving.allocate_recorded hgood numTokens)).ifOk) fun r hr => hr
        refine hcall.bind fun p hp => ?_
        rcases hp.2 with hquiet | hcopied
        · exact h.set_quiet hi hp.1 hquiet
        · exact h.set_copied hi hp.1 (horder seq hi) hcopied
  | tryAllocate i =>
      rw [PoolState.step]
      exact h.serve_quiet (fun seq hi => (h.inv.good hi).tryAllocate.bind fun r hr => hr)
        fun seq hi => (Serving.tryAllocate_quiet (h.inv.good hi)).bind fun r hr => hr
  | allocateShared i =>
      exact h.serve_quiet (fun seq hi => (h.inv.good hi).allocateShared)
        fun seq hi => Serving.allocateShared_quiet (h.inv.good hi)
  | cache i =>
      exact h.serve_quiet (fun seq hi => (h.inv.good hi).cache)
        fun seq hi => Serving.cache_quiet (h.inv.good hi)
  | deallocate i =>
      exact h.serve_quiet (fun seq hi => (h.inv.good hi).deallocate)
        fun seq hi => Serving.deallocate_quiet (h.inv.good hi)
  | forward i allowedMaxTokens cpSize isPrefill =>
      rw [PoolState.step]
      refine h.serve_tokens fun seq hi => ?_
      refine (Sequence.processSingleSequence_ensures allowedMaxTokens cpSize isPrefill).ifOk.bind
        fun r hr => ?_
      exact ⟨r.2, rfl, by simp only [hr.2], by simp only [hr.2], by simp only [hr.2]⟩
  | appendToken i token =>
      rw [PoolState.step]
      refine h.serve_tokens fun seq hi => ensures_of_forall_ok fun q hq => ?_
      obtain ⟨sequence, hseq, hq⟩ := bind_eq_ok hq
      cases hq
      rw [Sequence.appendToken] at hseq
      split at hseq
      · cases hseq
        exact ⟨_, rfl, rfl, rfl, rfl⟩
      · cases hseq
  | updateToken i index token =>
      rw [PoolState.step]
      exact h.serve_tokens fun seq hi => ⟨_, rfl, rfl, rfl, rfl⟩
  | setSrcBlocks i j needSwap => exact hpass.elim

/-- Run lemma of a pass whose operations come in order. -/
theorem PassInv.run {ops : List PoolOp} (h : PassInv options st) (hpass : ∀ op ∈ ops, op.InPass)
    (horder : Along PoolState.step PoolState.CopyInOrder st ops) :
    IfOk (run PoolState.step st ops) (PassInv options) := by
  have hboth := (along_of_forall hpass).and horder
  exact hboth.ensures_run (fun s op hs hop => hs.step hop.1 hop.2) h

theorem Inv.run {ops : List PoolOp} (h : Inv options st) :
    IfOk (run PoolState.step st ops) (Inv options) :=
  Ensures.run (fun _ op hs => hs.step op) h

/-- `process_swap_block_infos` sends what was recorded: groups are a permutation of the copies
they were made of; a CUDA build sends them only when any order has the effect of the list; and
whatever is sent after a pass that copies in order has the effect of the copies in the order in
which they were recorded. -/
theorem swapBlocks_mean_recorded {hostOptions : Options} {numIds : Nat} {concurrent : Bool}
    {st₀ st₁ st₂ : PoolState} {before ops : List PoolOp}
    (hst₀ : create options hostOptions numIds concurrent = .ok st₀)
    (hbefore : Contract.run PoolState.step st₀ before = .ok st₁)
    (hpass : ∀ op ∈ ops, op.InPass)
    (hops : Contract.run PoolState.step st₁.resetTransferInfos ops = .ok st₂)
    (horder : Along PoolState.step CopyInOrder st₁.resetTransferInfos ops)
    (platform : Platform) (enableBlockCopyKernel : Bool) (std : SourceSort) :
    (∀ infos, (processSwapBlockInfos platform enableBlockCopyKernel std infos).Grouped →
      (processSwapBlockInfos platform enableBlockCopyKernel std infos).copies.Perm infos) ∧
    (∀ infos, (processSwapBlockInfos .cuda enableBlockCopyKernel std infos).Grouped →
      ∀ cs, cs.Perm (processSwapBlockInfos .cuda enableBlockCopyKernel std infos).copies →
        ∀ {β : Type} (mem : Int → β), exec cs mem = exec infos mem) ∧
    (processSwapBlockInfos platform enableBlockCopyKernel std
      st₂.rank.swapBlockTransferInfos).Means st₂.rank.swapBlockTransferInfos := by
  refine ⟨fun infos hgrouped => processSwapBlockInfos_sent.copies_perm hgrouped,
    fun infos hgrouped cs hcs _ mem => processSwapBlockInfos_sent.any_order hgrouped hcs mem, ?_⟩
  have hstart : PassInv options st₁.resetTransferInfos :=
    ((Inv.create hst₀).1.run.of_ok hbefore).pass
  have hend : PassInv options st₂ := (hstart.run hpass horder).of_ok hops
  exact processSwapBlockInfos_sent.means fun mem => exec_sort std hend.ordered mem

omit [XXH3] in
theorem swapBlocks_mean_recorded_beams :
    let _ : XXH3 := XXH3.lastBytes
    ∃ st₂ : PoolState, st₂.rank.swapBlockTransferInfos = [(3, 5), (1, 4)] ∧
      (processSwapBlockInfos .npu true .stable st₂.rank.swapBlockTransferInfos).Means
        st₂.rank.swapBlockTransferInfos := by
  have hrun : let _ : XXH3 := XXH3.lastBytes
      Ensures (create ⟨16, 4, false⟩ ⟨1, 4, false⟩ 8 false) (fun _ => False) fun st₀ =>
        Ensures (Contract.run PoolState.step st₀
          [.arrive [1, 2] 8 2, .arrive [1, 2] 8 2, .arrive [1, 3] 8 2, .arrive [1, 3] 8 2,
            .allocate 0 2, .allocate 1 2, .allocate 2 2, .allocate 3 2, .setSrcBlocks 0 0 false,
            .setSrcBlocks 1 0 true, .setSrcBlocks 2 2 false, .setSrcBlocks 3 2 true])
          (fun _ => False) fun st₁ =>
        Along PoolState.step CopyInOrder st₁.resetTransferInfos
            [.allocate 2 3, .allocate 3 3, .allocate 0 3, .allocate 1 3] ∧
          Ensures (Contract.run PoolState.step st₁.resetTransferInfos
            [.allocate 2 3, .allocate 3 3, .allocate 0 3, .allocate 1 3]) (fun _ => False)
            fun st₂ => st₂.rank.swapBlockTransferInfos = [(3, 5), (1, 4)] := by
    decide +kernel
  intro hash
  obtain ⟨st₀, hst₀, hrun⟩ := hrun.exists_ok
  obtain ⟨st₁, hbefore, horder, hrun⟩ := hrun.exists_ok
  obtain ⟨st₂, hops, hinfos⟩ := hrun.exists_ok
  exact ⟨st₂, hinfos,
    (swapBlocks_mean_recorded hst₀ hbefore (by decide) hops horder .npu true .stable).2.2⟩

omit [XXH3] in
/-- The third beam of a request finds no embedding id, and the request gives its blocks back in
the middle of the pass. The next request copies block 1 into block 6, where block 3 was copied
before. Sorted by source, block 6 ends up with the content of block 3. -/
theorem preempted_copy_wins :
    let _ : XXH3 := XXH3.lastBytes
    let before : List PoolOp :=
      [.arrive [1, 2] 8 2, .arrive [1, 2] 8 2, .arrive [1, 3] 8 3, .arrive [1, 3] 8 3,
        .arrive [1, 3] 8 3, .allocate 0 2, .allocate 1 2, .allocate 2 2, .allocate 3 2,
        .allocate 4 2, .deallocate 4, .setSrcBlocks 0 0 false, .setSrcBlocks 1 0 true,
        .setSrcBlocks 2 2 false, .setSrcBlocks 3 2 true, .setSrcBlocks 4 2 true,
        .arrive [1, 4] 8 0, .allocate 5 2]
    let pass : List PoolOp :=
      [.allocate 2 3, .allocate 3 3, .allocate 4 3, .deallocate 2, .deallocate 3, .deallocate 4,
        .allocate 0 3, .allocate 1 3]
    let sent := fun platform => processSwapBlockInfos platform true .stable [(3, 6), (1, 6)]
    (∀ op ∈ pass, op.InPass) ∧
      Ensures (create ⟨16, 4, false⟩ ⟨1, 4, false⟩ 5 false) (fun _ => False) (fun st₀ =>
        Ensures (run step st₀ before) (fun _ => False) fun st₁ =>
        Ensures (run step st₁.resetTransferInfos pass) (fun _ => False) fun st₂ =>
          st₂.rank.swapBlockTransferInfos = [(3, 6), (1, 6)]) ∧
      exec [(3, 6), (1, 6)] (id : Int → Int) 6 = 1 ∧
      (sent .npu).Grouped ∧ exec (sent .npu).copies (id : Int → Int) 6 = 3 ∧
      ¬(sent .cuda).Grouped ∧ exec (sent .cuda).swapBlocks (id : Int → Int) 6 = 3 := by
  decide +kernel

end PoolState

end Xllm
