import Xllm.Block.PoolRun
import Xllm.DisaggPD.KVPush

/-!
# The transfer target of a prefilled sequence

`dispatch_requests` attaches a `TransferKVInfo` to the sequence of a request before the
request is scheduled, and the batch builder pushes the blocks of every sequence that has
one. The info is a member of `KVCacheState`, and `KVCacheState::reset` clears it with the
rest: a sequence whose blocks are rolled back or released before its prompt is computed is
prefilled without a target afterwards.

A run is any list of scheduling acts on one rank. What the batches contained and which
requests were handed over is kept in a log.
-/

namespace Xllm

open Contract List

/-- What the pool leaves of a sequence that it does not reset. The token count only changes
when blocks are shared, and then a token is left to compute. -/
structure Sequence.Kept (seq seq' : Sequence) : Prop where
  transferKvInfo : seq'.kvState.transferKvInfo = seq.kvState.transferKvInfo
  numTokens : seq'.numTokens = seq.numTokens
  numPromptTokens : seq'.numPromptTokens = seq.numPromptTokens
  kvCacheTokensNum : seq'.kvState.kvCacheTokensNum = seq.kvState.kvCacheTokensNum ∨
    seq'.kvState.kvCacheTokensNum < seq.numTokens

namespace Sequence.Kept

variable {seq seq₁ seq₂ : Sequence}

theorem refl (seq : Sequence) : seq.Kept seq := ⟨rfl, rfl, rfl, .inl rfl⟩

theorem trans (h : seq.Kept seq₁) (h' : seq₁.Kept seq₂) : seq.Kept seq₂ := by
  refine ⟨h'.transferKvInfo.trans h.transferKvInfo, h'.numTokens.trans h.numTokens,
    h'.numPromptTokens.trans h.numPromptTokens, ?_⟩
  have hfirst := h.kvCacheTokensNum
  have hsecond := h'.kvCacheTokensNum
  rw [h.numTokens] at hsecond
  omega

end Sequence.Kept

namespace KVCacheState

variable (kv : KVCacheState)

theorem tryReplaceUniqueBlocks_kept (matched : List Block) (s : BlockHeap) :
    IfOk (kv.tryReplaceUniqueBlocks matched s) (fun r =>
      r.1.transferKvInfo = kv.transferKvInfo ∧ r.1.kvCacheTokensNum = kv.kvCacheTokensNum) := by
  rw [tryReplaceUniqueBlocks]
  split
  · split
    · exact ensures_any.bind fun _ _ => ⟨rfl, rfl⟩
    · exact trivial
  · exact ensures_any.bind fun _ _ => ⟨rfl, rfl⟩

theorem settleShared_kept (total : Nat) (s : BlockHeap) : IfOk (kv.settleShared total s) (fun r =>
      r.1.transferKvInfo = kv.transferKvInfo ∧ r.1.kvCacheTokensNum < total) := by
  have hsettled : ∀ (kv' : KVCacheState) (s : BlockHeap) (n : Nat),
      kv'.transferKvInfo = kv.transferKvInfo →
      IfOk (if n < total then .ok ({ kv' with kvCacheTokensNum := n }, s)
          else .error Check.sharedTokensNotBelowTotal)
        (fun r => r.1.transferKvInfo = kv.transferKvInfo ∧ r.1.kvCacheTokensNum < total) := by
    intro kv' s n hinfo
    split
    · rename_i hlt
      exact ⟨hinfo, hlt⟩
    · exact trivial
  rw [settleShared]
  split
  · split
    · split
      · exact ensures_any.bind fun _ _ => hsettled _ _ _ rfl
      · exact ensures_any.bind fun _ _ => hsettled _ _ _ rfl
    · exact trivial
  · split
    · rename_i hlt
      exact ⟨rfl, hlt⟩
    · exact trivial

theorem addSharedKvBlocks_kept (blocks : List Block) (total : Nat) (s : BlockHeap) :
    IfOk (kv.addSharedKvBlocks blocks total s) (fun r =>
      r.1.transferKvInfo = kv.transferKvInfo ∧
        (r.1.kvCacheTokensNum = kv.kvCacheTokensNum ∨ r.1.kvCacheTokensNum < total)) := by
  rw [addSharedKvBlocks]
  split
  · exact ⟨rfl, .inl rfl⟩
  · split
    · exact (kv.tryReplaceUniqueBlocks_kept blocks s).mono_post fun r hr => ⟨hr.1, .inl hr.2⟩
    · refine ensures_any.bind fun s _ => ?_
      exact (settleShared_kept _ total s).mono_post fun r hr => ⟨hr.1, .inr hr.2⟩

theorem processBeamSearch_kept (newBlock : Option Block) (s : BlockHeap) :
    IfOk (kv.processBeamSearch newBlock s) (fun r =>
      r.1.transferKvInfo = kv.transferKvInfo ∧ r.1.kvCacheTokensNum = kv.kvCacheTokensNum) := by
  refine ensures_any.bind fun s _ => ?_
  split
  · exact ⟨rfl, rfl⟩
  · exact ensures_any.bind fun _ _ => ⟨rfl, rfl⟩

end KVCacheState

namespace Serving

variable (p : Serving)

theorem allocateEmbeddingId_kept :
    IfOk p.allocateEmbeddingId (fun r => p.sequence.Kept r.2.sequence) := by
  rw [allocateEmbeddingId]
  split
  · exact .refl _
  · refine ensures_any.bind fun r _ => ?_
    obtain ⟨block, m⟩ := r
    cases block with
    | none => exact Sequence.Kept.refl p.sequence
    | some b => exact ⟨rfl, rfl, rfl, .inl rfl⟩

theorem processBeamSearch_kept (needSwap : Bool) : IfOk (p.processBeamSearch needSwap)
      (fun r => p.sequence.Kept r.2.sequence) := by
  rw [processBeamSearch]
  split
  · exact .refl _
  split
  · exact .refl _
  split
  · refine ensures_any.bind fun r _ => ?_
    obtain ⟨newBlocks, m⟩ := r
    cases newBlocks with
    | nil => exact Sequence.Kept.refl p.sequence
    | cons b bs =>
        refine (KVCacheState.processBeamSearch_kept _ _ _).bind fun q hq => ?_
        exact ⟨hq.1, rfl, rfl, .inl hq.2⟩
  · refine (KVCacheState.processBeamSearch_kept _ _ _).bind fun q hq => ?_
    exact ⟨hq.1, rfl, rfl, .inl hq.2⟩

theorem allocateMore_kept (numTokens : Nat) (startedEmpty needsId : Bool) :
    IfOk (p.allocateMore numTokens startedEmpty needsId)
      (fun r => r.1 = true ∨ startedEmpty = false → p.sequence.Kept r.2.sequence) := by
  rw [allocateMore]
  simp only
  split
  · exact (p.processBeamSearch_kept true).mono_post fun r hr _ => hr
  · refine (p.processBeamSearch_kept false).bind fun r hr => ?_
    refine ensures_any.bind fun b _ => ?_
    split
    · exact fun _ => hr.trans ⟨rfl, rfl, rfl, .inl rfl⟩
    · rw [rollback]
      split
      · rename_i hempty
        refine ensures_any.bind fun q _ => ?_
        intro h
        rcases h with h | h
        · cases h
        · rw [hempty] at h
          cases h
      · exact fun _ => hr.trans ⟨rfl, rfl, rfl, .inl rfl⟩

theorem drop_numPromptTokens (embedding : Bool) : IfOk (p.drop embedding)
      (fun q => q.sequence.numPromptTokens = p.sequence.numPromptTokens) := by
  have hreset : ∀ q : Serving, q.sequence.numPromptTokens = p.sequence.numPromptTokens →
      IfOk q.resetSequence (fun r => r.sequence.numPromptTokens = p.sequence.numPromptTokens) := by
    intro q hq
    refine Ensures.bind (Q := fun r => r.1.numPromptTokens = q.sequence.numPromptTokens) ?_
      fun _ hr => Eq.trans hr hq
    exact ensures_any.bind fun _ _ => ensures_any.bind fun _ _ => rfl
  refine ensures_any.bind fun m _ => ?_
  cases embedding with
  | true =>
      refine Ensures.bind (Q := fun q : Serving =>
        q.sequence.numPromptTokens = p.sequence.numPromptTokens) ?_ hreset
      exact ensures_any.bind fun _ _ => rfl
  | false => exact hreset _ rfl

variable [XXH3]

theorem allocateShared_kept : IfOk p.allocateShared (fun q => p.sequence.Kept q.sequence) := by
  rw [allocateShared]
  split
  · refine ensures_any.bind fun _ _ => ensures_any.bind fun r _ => ?_
    refine (KVCacheState.addSharedKvBlocks_kept _ _ _ _).bind fun q hq => ?_
    exact ⟨hq.1, rfl, rfl, hq.2⟩
  · exact .refl _

theorem cache_kept : IfOk p.cache (fun q => p.sequence.Kept q.sequence) := by
  refine ensures_any.bind fun _ _ => ensures_any.bind fun r _ => ?_
  exact ⟨rfl, rfl, rfl, .inl rfl⟩

theorem allocate_kept (numTokens : Nat) : IfOk (p.allocate numTokens) (fun r =>
      r.1 = true ∨ p.sequence.kvState.numKvBlocks ≠ 0 → p.sequence.Kept r.2.sequence) := by
  refine allocate_rule (I := fun q => p.sequence.Kept q.sequence)
    (J := fun q => p.sequence.Kept q.sequence) ?_ ?_ ?_
  · refine p.allocateEmbeddingId_kept.mono_post fun r hr => ?_
    split
    · exact hr
    · exact fun _ => hr
  · intro q hq
    split
    · exact q.allocateShared_kept.mono_post fun _ hr => hq.trans hr
    · exact hq
  · intro q hq
    refine (q.allocateMore_kept numTokens _ _).mono_post fun r hr h => hq.trans (hr ?_)
    exact h.imp_right fun hne => decide_eq_false hne

theorem deallocate_numPromptTokens : IfOk p.deallocate
      (fun q => q.sequence.numPromptTokens = p.sequence.numPromptTokens) := by
  refine deallocate_rule p.cache_kept fun q hq => ?_
  exact (q.drop_numPromptTokens true).mono_post fun _ hr => hr.trans hq.numPromptTokens

end Serving

/-- A call for the `i`-th sequence: the others stay as they are, and this one changes by
`R`. -/
structure PoolState.Framed (st : PoolState) (i : Nat) (R : Sequence → Sequence → Prop)
    (st' : PoolState) : Prop where
  length_eq : st'.sequences.length = st.sequences.length
  others : ∀ j, j ≠ i → st'.sequences[j]? = st.sequences[j]?
  self : ∀ seq, st.sequences[i]? = some seq → ∃ seq', st'.sequences[i]? = some seq' ∧ R seq seq'

theorem PoolState.serve_framed {st : PoolState} {i : Nat} {R : Sequence → Sequence → Prop}
    {f : Serving → Except Check Serving}
    (hf : ∀ seq, st.sequences[i]? = some seq →
      IfOk (f ⟨st.rank, seq⟩) (fun q => R seq q.sequence)) :
    IfOk (st.serve i f) (st.Framed i R) := by
  rw [PoolState.serve]
  split
  · rename_i hnone
    refine ⟨rfl, fun _ _ => rfl, fun seq hseq => ?_⟩
    rw [hnone] at hseq
    cases hseq
  · rename_i seq hi
    refine (hf seq hi).bind fun q hq => ⟨List.length_set .., fun j hj => ?_, fun seq' hseq' => ?_⟩
    · exact getElem?_set_ne (Ne.symm hj)
    · rw [hi] at hseq'
      cases hseq'
      exact ⟨q.sequence, getElem?_set_self (List.getElem?_eq_some_iff.mp hi).1, hq⟩

def PoolOp.sequence? : PoolOp → Option Nat
  | .arrive .. => none
  | .allocate i _ => some i
  | .tryAllocate i => some i
  | .allocateShared i => some i
  | .cache i => some i
  | .deallocate i => some i
  | .forward i .. => some i
  | .appendToken i _ => some i
  | .updateToken i .. => some i
  | .setSrcBlocks i .. => some i

namespace DisaggPD

/-- What the decode instance has reserved for a prompt, and the info that is made of its
answer. Block ids are `int32_t` numbers, so there are fewer than `2 ^ 31` blocks. -/
structure Target where
  remoteBlocks : List Int32
  sharedNum : Nat
  info : SharedMemory.TransferKVInfo
  sharedNum_le : sharedNum ≤ remoteBlocks.length
  length_lt : remoteBlocks.length < 2 ^ 31
  remoteBlocksIds_eq : info.remoteBlocksIds = decodeRecvBlocksIds remoteBlocks sharedNum

/-- A sequence in a batch: the positions from `start` up to `seqLen` are computed with
`blocks`, and `pushed` is what the batch gets into `transfer_kv_infos` for it. -/
structure BatchRow where
  index : Nat
  start : Nat
  seqLen : Nat
  blocks : List Int32
  pushed : Option SharedMemory.TransferKVInfo

/-- `process_single_sequence` and `setup_kv_cache_info`, as far as they decide the row. -/
def batchRow (seq : Sequence) (index allowedMaxTokens cpSize : Nat) (isPrefill : Bool) : BatchRow :=
  let blocks := seq.kvState.blocks.map fun b => Int32.ofInt b.id
  { index := index
    start := seq.kvState.kvCacheTokensNum
    seqLen := seq.kvState.kvCacheTokensNum + (seq.querySeqLen allowedMaxTokens cpSize isPrefill).2
    blocks := blocks
    pushed := seq.kvState.transferKvInfo.map (setupTransfer blocks) }

/-- A rank of a prefill instance. `targets` are the sequences to which `dispatch_requests`
has attached an info, `sent` those whose first token has been handed over, and `rows` is
everything that has been put into a batch. -/
structure PrefillInstance where
  pool : PoolState
  targets : Nat → Option Target := fun _ => none
  sent : List Nat := []
  rows : List BatchRow := []

inductive PrefillOp where
  | dispatch (promptTokenIds : List Token) (capacity beamWidth : Nat) (target : Target)
  | schedule (op : PoolOp)
  | sendFirstGeneration (i : Nat)

namespace PrefillInstance

section

/-- A batch that computes prompt tokens of a dispatched sequence pushes its blocks to the
target. When the first token of the sequence is sent, every block of the prompt that the
decode instance does not share has been pushed to its place in a batch with which the whole
prompt is computed. -/
structure Delivered (p : PrefillInstance) : Prop where
  carried : ∀ row ∈ p.rows, ∀ target, p.targets row.index = some target →
    ∀ seq, p.pool.sequences[row.index]? = some seq → row.start < seq.numPromptTokens →
      row.pushed = some (setupTransfer row.blocks target.info)
  handed : ∀ i ∈ p.sent, ∀ target, p.targets i = some target →
    ∀ seq, p.pool.sequences[i]? = some seq →
    ∀ position, target.sharedNum ≤ position → position < target.remoteBlocks.length →
      ∃ row ∈ p.rows, row.index = i ∧ seq.numPromptTokens ≤ row.seqLen ∧
        ∃ info j, row.pushed = some info ∧
          j < info.localBlocksIds.length ∧ j < info.remoteBlocksIds.length ∧
          info.localBlocksIds[j]? = (row.blocks[position]?).map blockId ∧
          info.remoteBlocksIds[j]? = (target.remoteBlocks[position]?).map blockId

/-- What a scheduling act other than a batch leaves of a sequence whose prompt is not
computed. -/
structure Carries (seq seq' : Sequence) : Prop where
  transferKvInfo : seq'.kvState.transferKvInfo = seq.kvState.transferKvInfo
  numPromptTokens : seq'.numPromptTokens = seq.numPromptTokens
  waiting : seq.kvState.kvCacheTokensNum < seq.numPromptTokens →
    seq'.numTokens = seq.numTokens ∧
      (seq'.kvState.kvCacheTokensNum = seq.kvState.kvCacheTokensNum ∨
        seq'.kvState.kvCacheTokensNum < seq.numTokens)

theorem carries_of_kept {seq seq' : Sequence} (h : seq.Kept seq') : Carries seq seq' :=
  ⟨h.transferKvInfo, h.numPromptTokens, fun _ => ⟨h.numTokens, h.kvCacheTokensNum⟩⟩

theorem appendToken_carries (seq : Sequence) (token : Token) :
    IfOk (seq.appendToken token) (fun seq' => Carries seq seq') := by
  rw [Sequence.appendToken]
  split
  · rename_i hchecks
    obtain ⟨-, -, hpos, hstage⟩ := hchecks
    refine ⟨rfl, rfl, fun hwaiting => absurd ?_ hstage⟩
    have hlt : seq.kvState.kvCacheTokensNum <
        max seq.volatileNumPromptTokens seq.numPromptTokens :=
      Nat.lt_of_lt_of_le hwaiting (Nat.le_max_right _ _)
    rw [Sequence.stage, if_pos hlt, if_pos hpos]
  · exact trivial

def Covered (rows : List BatchRow) (i numPromptTokens : Nat) : Prop :=
  ∃ row ∈ rows, row.index = i ∧ numPromptTokens ≤ row.seqLen

/-- What holds of a dispatched sequence until its first token is sent: it has its target,
and either its prompt is computed or it has nothing but the prompt. -/
structure Live (rows : List BatchRow) (i : Nat) (target : Target) (seq : Sequence) : Prop where
  transferKvInfo : seq.kvState.transferKvInfo = some target.info
  waiting : Covered rows i seq.numPromptTokens ∨
    seq.numTokens = seq.numPromptTokens ∧
      seq.kvState.kvCacheTokensNum < seq.numPromptTokens

structure Fits (target : Target) (row : BatchRow) : Prop where
  pushed : row.pushed = some (setupTransfer row.blocks target.info)
  length_eq : target.sharedNum = target.remoteBlocks.length ∨
    row.blocks.length = target.remoteBlocks.length

/-- The invariant of a run whose steps keep the targets. -/
structure Inv (p : PrefillInstance) : Prop where
  targets_lt : ∀ i target, p.targets i = some target → i < p.pool.sequences.length
  rows_lt : ∀ row ∈ p.rows, row.index < p.pool.sequences.length
  sent_lt : ∀ i ∈ p.sent, i < p.pool.sequences.length
  live : ∀ i target seq, p.targets i = some target → i ∉ p.sent →
    p.pool.sequences[i]? = some seq → Live p.rows i target seq
  fits : ∀ row ∈ p.rows, ∀ target, p.targets row.index = some target → Fits target row
  covered : ∀ i ∈ p.sent, ∀ target seq, p.targets i = some target →
    p.pool.sequences[i]? = some seq → Covered p.rows i seq.numPromptTokens

variable {p : PrefillInstance} {pool' : PoolState} {rows : List BatchRow} {i n : Nat}

theorem Covered.append (h : Covered rows i n) (more : List BatchRow) :
    Covered (rows ++ more) i n := by
  obtain ⟨row, hrow, hindex, hle⟩ := h
  exact ⟨row, mem_append_left _ hrow, hindex, hle⟩

theorem Live.append {target : Target} {seq : Sequence} (h : Live rows i target seq)
    (more : List BatchRow) : Live (rows ++ more) i target seq :=
  ⟨h.transferKvInfo, h.waiting.imp_left fun hc => hc.append more⟩

theorem Live.carries {target : Target} {seq seq' : Sequence} (h : Live rows i target seq)
    (hc : Carries seq seq') : Live rows i target seq' := by
  refine ⟨hc.transferKvInfo.trans h.transferKvInfo, ?_⟩
  rw [hc.numPromptTokens]
  rcases h.waiting with hcovered | ⟨hnum, hlt⟩
  · exact .inl hcovered
  · obtain ⟨hnum', hkv⟩ := hc.waiting hlt
    exact .inr ⟨hnum'.trans hnum, by omega⟩

/-- An operation on a sequence that is not sent, with the rows it adds. -/
theorem Inv.frame {R : Sequence → Sequence → Prop} (h : p.Inv) (hsent : i ∉ p.sent)
    (hframe : p.pool.Framed i R pool') (more : List BatchRow)
    (hmore : ∀ row ∈ more, row.index = i ∧ i < p.pool.sequences.length ∧
      ∀ target, p.targets i = some target → Fits target row)
    (hlive : ∀ target seq seq', p.targets i = some target → Live p.rows i target seq →
      p.pool.sequences[i]? = some seq → R seq seq' → Live (p.rows ++ more) i target seq') :
    Inv { p with pool := pool', rows := p.rows ++ more } := by
  refine ⟨fun j target hj => ?_, fun row hrow => ?_, fun j hj => ?_,
    fun j target seq hj hnot hseq => ?_, fun row hrow target htarget => ?_,
    fun j hj target seq htarget hseq => ?_⟩
  · rw [hframe.length_eq]
    exact h.targets_lt j target hj
  · rw [hframe.length_eq]
    rcases List.mem_append.mp hrow with hrow | hrow
    · exact h.rows_lt row hrow
    · rw [(hmore row hrow).1]
      exact (hmore row hrow).2.1
  · rw [hframe.length_eq]
    exact h.sent_lt j hj
  · by_cases hji : j = i
    · subst hji
      have hlt := h.targets_lt j target hj
      have hold := getElem?_eq_getElem hlt
      obtain ⟨seq', hseq', hR⟩ := hframe.self _ hold
      rw [← Option.some.inj (hseq'.symm.trans hseq)]
      exact hlive target _ seq' hj (h.live j target _ hj hnot hold) hold hR
    · rw [hframe.others j hji] at hseq
      exact (h.live j target seq hj hnot hseq).append more
  · rcases List.mem_append.mp hrow with hrow | hrow
    · exact h.fits row hrow target htarget
    · rw [(hmore row hrow).1] at htarget
      exact (hmore row hrow).2.2 target htarget
  · have hji : j ≠ i := fun he => hsent (he ▸ hj)
    rw [hframe.others j hji] at hseq
    exact (h.covered j hj target seq htarget hseq).append more

theorem Inv.frame_nil {R : Sequence → Sequence → Prop} (h : p.Inv) (hsent : i ∉ p.sent)
    (hframe : p.pool.Framed i R pool')
    (hlive : ∀ target seq seq', p.targets i = some target → Live p.rows i target seq →
      p.pool.sequences[i]? = some seq → R seq seq' → Live p.rows i target seq') :
    Inv { p with pool := pool' } := by
  have hinv := h.frame hsent hframe [] (forall_mem_nil _)
  simp only [append_nil] at hinv
  exact hinv hlive

theorem Inv.targets_length (h : p.Inv) : p.targets p.pool.sequences.length = none := by
  by_contra hne
  obtain ⟨target, htarget⟩ := Option.ne_none_iff_exists'.mp hne
  exact absurd (h.targets_lt _ target htarget) (Nat.lt_irrefl _)

theorem Inv.arrive (h : p.Inv) (seq : Sequence) (target : Option Target)
    (htargets : ∀ t, target = some t → Live p.rows p.pool.sequences.length t seq) :
    Inv { p with
      pool := { p.pool with sequences := p.pool.sequences ++ [seq] }
      targets := Function.update p.targets p.pool.sequences.length target } := by
  have hold : ∀ j, j < p.pool.sequences.length →
      Function.update p.targets p.pool.sequences.length target j = p.targets j :=
    fun j hj => Function.update_of_ne (Nat.ne_of_lt hj) _ _
  have hget : ∀ j, j < p.pool.sequences.length →
      (p.pool.sequences ++ [seq])[j]? = p.pool.sequences[j]? :=
    fun j hj => getElem?_append_left hj
  refine ⟨fun j t hj => ?_, fun row hrow => ?_, fun j hj => ?_, fun j t s hj hnot hs => ?_,
    fun row hrow t ht => ?_, fun j hj t s ht hs => ?_⟩
  · simp only [length_append, length_singleton]
    by_cases hlt : j < p.pool.sequences.length
    · omega
    · by_cases he : j = p.pool.sequences.length
      · omega
      · simp only [Function.update_of_ne he] at hj
        exact absurd (h.targets_lt j t hj) hlt
  · simp only [length_append]
    exact Nat.lt_succ_of_lt (h.rows_lt row hrow)
  · simp only [length_append]
    exact Nat.lt_succ_of_lt (h.sent_lt j hj)
  · by_cases hlt : j < p.pool.sequences.length
    · simp only [hold j hlt] at hj
      simp only [hget j hlt] at hs
      exact h.live j t s hj hnot hs
    · have he : j = p.pool.sequences.length := by
        have hle := (List.getElem?_eq_some_iff.mp hs).1
        rw [length_append, length_singleton] at hle
        omega
      subst he
      simp only [Function.update_self] at hj
      rw [getElem?_concat_length] at hs
      rw [← Option.some.inj hs]
      exact htargets t hj
  · simp only [hold row.index (h.rows_lt row hrow)] at ht
    exact h.fits row hrow t ht
  · have hlt := h.sent_lt j hj
    simp only [hold j hlt] at ht
    simp only [hget j hlt] at hs
    exact h.covered j hj t s ht hs

theorem Fits.pairs {target : Target} {row : BatchRow} (h : Fits target row) {position : Nat}
    (hshared : target.sharedNum ≤ position) (hlt : position < target.remoteBlocks.length) :
    ∃ info j, row.pushed = some info ∧
      j < info.localBlocksIds.length ∧ j < info.remoteBlocksIds.length ∧
      info.localBlocksIds[j]? = (row.blocks[position]?).map blockId ∧
      info.remoteBlocksIds[j]? = (target.remoteBlocks[position]?).map blockId := by
  have hlen : row.blocks.length = target.remoteBlocks.length := h.length_eq.resolve_left (by omega)
  have hremote : target.info.remoteBlocksIds.length =
      target.remoteBlocks.length - target.sharedNum := by
    rw [target.remoteBlocksIds_eq, decodeRecvBlocksIds, length_map, length_drop]
  have hsize : (pushSize row.blocks target.info).toNat = target.sharedNum := by
    have hmax := target.length_lt
    rw [toNat_pushSize (by omega) (by omega)]
    omega
  have hlocal := localBlocksIds_setupTransfer row.blocks target.info
  rw [hsize] at hlocal
  refine ⟨_, position - target.sharedNum, h.pushed, ?_, ?_, ?_, ?_⟩
  · rw [hlocal, length_map, length_drop]
    omega
  · change _ < target.info.remoteBlocksIds.length
    omega
  · rw [hlocal, getElem?_map, getElem?_drop, Nat.add_sub_cancel' hshared]
  · change target.info.remoteBlocksIds[position - target.sharedNum]? = _
    rw [target.remoteBlocksIds_eq, decodeRecvBlocksIds, getElem?_map, getElem?_drop,
      Nat.add_sub_cancel' hshared]

/-- Under the invariant what was sent is delivered. -/
theorem Inv.delivered (h : p.Inv) : p.Delivered := by
  refine ⟨fun row hrow target htarget _ _ _ => (h.fits row hrow target htarget).pushed, ?_⟩
  intro i hi target htarget seq hseq position hshared hlt
  obtain ⟨row, hrow, rfl, hreach⟩ := h.covered i hi target seq htarget hseq
  exact ⟨row, hrow, rfl, hreach, (h.fits row hrow target htarget).pairs hshared hlt⟩

variable [XXH3]

/-- A scheduling act. Prefill instances do not call `try_allocate`, and they have given up a
sequence whose first token is handed over. -/
def schedule (p : PrefillInstance) (op : PoolOp) : Except Check PrefillInstance :=
  if ∃ i ∈ op.sequence?, i ∈ p.sent then .ok p
  else
    match op with
    | .tryAllocate _ => .ok p
    | .forward i allowedMaxTokens cpSize isPrefill =>
        match p.pool.sequences[i]? with
        | none => .ok p
        | some seq => do
            let pool ← p.pool.step (.forward i allowedMaxTokens cpSize isPrefill)
            .ok { p with
              pool := pool
              rows := p.rows ++ [batchRow seq i allowedMaxTokens cpSize isPrefill] }
    | op => do
        let pool ← p.pool.step op
        .ok { p with pool := pool }

/-- `prefill_send_first_generation` for one request: it has generated one token. The blocks
are given back after the message. -/
def sendFirstGeneration (p : PrefillInstance) (i : Nat) : Except Check PrefillInstance :=
  match p.pool.sequences[i]? with
  | none => .ok p
  | some seq =>
      if i ∉ p.sent ∧ seq.numTokens = seq.numPromptTokens + 1 then do
        let pool ← p.pool.step (.deallocate i)
        .ok { p with pool := pool, sent := p.sent ++ [i] }
      else .ok p

def step (p : PrefillInstance) : PrefillOp → Except Check PrefillInstance
  | .dispatch promptTokenIds capacity beamWidth target => do
      let seq ← Sequence.create promptTokenIds capacity beamWidth
      let seq := { seq with kvState := seq.kvState.setTransferKvInfo target.info }
      .ok { p with
        pool := { p.pool with sequences := p.pool.sequences ++ [seq] }
        targets := Function.update p.targets p.pool.sequences.length (some target) }
  | .schedule op => p.schedule op
  | .sendFirstGeneration i => p.sendFirstGeneration i

/-- The steps with which a sequence keeps its target: until its first token is sent, no
`allocate` of a sequence without blocks fails, and it is not released. In a batch both
instances have the same number of blocks for it, or the decode instance shares them all. -/
def Retained (p : PrefillInstance) : PrefillOp → Prop
  | .schedule (.allocate i numTokens) => i ∉ p.sent → (p.targets i).isSome = true →
      ∀ seq ∈ p.pool.sequences[i]?, seq.kvState.numKvBlocks = 0 →
        Ensures (Serving.allocate ⟨p.pool.rank, seq⟩ numTokens) (fun _ => True)
          (fun r => r.1 = true)
  | .schedule (.deallocate i) => i ∉ p.sent → (p.targets i).isSome = false
  | .schedule (.forward i _ _ _) => i ∉ p.sent → ∀ target ∈ p.targets i,
      ∀ seq ∈ p.pool.sequences[i]?, target.sharedNum = target.remoteBlocks.length ∨
        seq.kvState.blocks.length = target.remoteBlocks.length
  | _ => True

variable {pool : PoolState}
variable {op : PoolOp}

theorem step_framed (hi : op.sequence? = some i) :
    IfOk (pool.step op) (pool.Framed i fun _ _ => True) := by
  have hserve : ∀ f, IfOk (pool.serve i f) (pool.Framed i fun _ _ => True) :=
    fun f => PoolState.serve_framed fun _ _ => ensures_any
  cases op with
  | arrive => cases hi
  | setSrcBlocks k j needSwap =>
      cases hi
      rw [PoolState.step]
      split
      · exact ⟨rfl, fun _ _ => rfl, fun seq hseq => ⟨seq, hseq, trivial⟩⟩
      · exact hserve _
  | _ =>
      cases hi
      rw [PoolState.step]
      exact hserve _

theorem step_carries (hi : op.sequence? = some i)
    (hforward : ∀ allowedMaxTokens cpSize isPrefill,
      op ≠ .forward i allowedMaxTokens cpSize isPrefill)
    (htry : op ≠ .tryAllocate i) (hdeallocate : op ≠ .deallocate i)
    (hallocate : ∀ numTokens, op = .allocate i numTokens → ∀ seq, pool.sequences[i]? = some seq →
      seq.kvState.numKvBlocks = 0 → IfOk (Serving.allocate ⟨pool.rank, seq⟩ numTokens)
        (fun r => r.1 = true)) : IfOk (pool.step op) (pool.Framed i Carries) := by
  cases op with
  | arrive => cases hi
  | allocate k numTokens =>
      cases hi
      rw [PoolState.step]
      refine PoolState.serve_framed fun seq hseq => ?_
      have hgranted : IfOk (Serving.allocate ⟨pool.rank, seq⟩ numTokens)
          (fun r => r.1 = true ∨ seq.kvState.numKvBlocks ≠ 0) := by
        by_cases hempty : seq.kvState.numKvBlocks = 0
        · exact (hallocate numTokens rfl seq hseq hempty).mono_post fun _ h => .inl h
        · exact ensures_any.mono_post fun _ _ => .inr hempty
      have hboth := (Serving.allocate_kept ⟨pool.rank, seq⟩ numTokens).and hgranted
      refine hboth.ifOk.bind fun r hr => ?_
      exact carries_of_kept (hr.1 hr.2)
  | tryAllocate k =>
      cases hi
      exact absurd rfl htry
  | allocateShared k =>
      cases hi
      exact PoolState.serve_framed fun seq _ =>
        (Serving.allocateShared_kept ⟨pool.rank, seq⟩).mono_post fun _ h => carries_of_kept h
  | cache k =>
      cases hi
      exact PoolState.serve_framed fun seq _ =>
        (Serving.cache_kept ⟨pool.rank, seq⟩).mono_post fun _ h => carries_of_kept h
  | deallocate k =>
      cases hi
      exact absurd rfl hdeallocate
  | forward k allowedMaxTokens cpSize isPrefill =>
      cases hi
      exact absurd rfl (hforward allowedMaxTokens cpSize isPrefill)
  | appendToken k token =>
      cases hi
      rw [PoolState.step]
      exact PoolState.serve_framed fun seq _ =>
        (appendToken_carries seq token).bind fun _ h => h
  | updateToken k index token =>
      cases hi
      rw [PoolState.step]
      exact PoolState.serve_framed fun seq _ => ⟨rfl, rfl, fun _ => ⟨rfl, .inl rfl⟩⟩
  | setSrcBlocks k j needSwap =>
      cases hi
      rw [PoolState.step]
      split
      · exact ⟨rfl, fun _ _ => rfl, fun seq hseq =>
          ⟨seq, hseq, rfl, rfl, fun _ => ⟨rfl, .inl rfl⟩⟩⟩
      · refine PoolState.serve_framed fun seq _ => ?_
        refine Ensures.bind (Q := fun r => r.1.transferKvInfo = seq.kvState.transferKvInfo ∧
          r.1.kvCacheTokensNum = seq.kvState.kvCacheTokensNum) ?_ fun r hr => ?_
        · rw [KVCacheState.setSrcBlocks]
          exact ensures_any.bind fun _ _ => ⟨rfl, rfl⟩
        · exact ⟨hr.1, rfl, fun _ => ⟨rfl, .inl hr.2⟩⟩

theorem forward_framed (allowedMaxTokens cpSize : Nat) (isPrefill : Bool) :
    IfOk (pool.step (.forward i allowedMaxTokens cpSize isPrefill))
      (pool.Framed i fun seq seq' => seq' = { seq with kvState := { seq.kvState with
        kvCacheTokensNum := (batchRow seq i allowedMaxTokens cpSize isPrefill).seqLen } }) := by
  rw [PoolState.step]
  refine PoolState.serve_framed fun seq _ => ?_
  refine (Sequence.processSingleSequence_ensures allowedMaxTokens cpSize isPrefill).ifOk.bind
    fun r hr => ?_
  exact hr.2

theorem Inv.forward (h : p.Inv) (allowedMaxTokens cpSize : Nat) (isPrefill : Bool)
    (hsent : i ∉ p.sent) {seq : Sequence} (hseq : p.pool.sequences[i]? = some seq)
    (hretained : p.Retained (.schedule (.forward i allowedMaxTokens cpSize isPrefill))) :
    IfOk (p.pool.step (.forward i allowedMaxTokens cpSize isPrefill)) (fun pool => Inv { p with
        pool := pool
        rows := p.rows ++ [batchRow seq i allowedMaxTokens cpSize isPrefill] }) := by
  refine (forward_framed allowedMaxTokens cpSize isPrefill).mono_post fun pool hframe => ?_
  refine h.frame hsent hframe _ ?_ ?_
  · intro row hrow
    rw [List.mem_singleton.mp hrow]
    refine ⟨rfl, (List.getElem?_eq_some_iff.mp hseq).1, fun target htarget => ⟨?_, ?_⟩⟩
    · simp only [batchRow, (h.live i target seq htarget hsent hseq).transferKvInfo, Option.map_some]
    · rcases hretained hsent target htarget seq hseq with hall | hlen
      · exact .inl hall
      · exact .inr (by simpa only [batchRow, length_map] using hlen)
  · intro target seq₀ seq' _ hlive hseq₀ hseq'
    obtain rfl := Option.some.inj (hseq.symm.trans hseq₀)
    subst hseq'
    refine ⟨hlive.transferKvInfo, ?_⟩
    -- either this batch reaches the end of the prompt, or the rest of it is left
    by_cases hreach :
        seq.numPromptTokens ≤ (batchRow seq i allowedMaxTokens cpSize isPrefill).seqLen
    · exact .inl ⟨_, mem_append_right _ mem_cons_self, rfl, hreach⟩
    · exact hlive.waiting.imp (fun hc => hc.append _)
        fun hwaiting => ⟨hwaiting.1, Nat.lt_of_not_le hreach⟩

theorem Inv.serve (h : p.Inv) (hi : op.sequence? = some i) (hsent : i ∉ p.sent)
    (hforward : ∀ allowedMaxTokens cpSize isPrefill,
      op ≠ .forward i allowedMaxTokens cpSize isPrefill)
    (htry : op ≠ .tryAllocate i) (hretained : p.Retained (.schedule op)) :
    IfOk (p.pool.step op) (fun pool => Inv { p with pool := pool }) := by
  by_cases htarget : (p.targets i).isSome = true
  · have hcarries : IfOk (p.pool.step op) (p.pool.Framed i Carries) := by
      refine step_carries hi hforward htry ?_ ?_
      · rintro rfl
        rw [hretained hsent] at htarget
        cases htarget
      · rintro numTokens rfl seq hseq hempty
        exact hretained hsent htarget seq hseq hempty
    refine hcarries.mono_post fun pool hframe => ?_
    exact h.frame_nil hsent hframe fun _ _ _ _ hlive _ hc => hlive.carries hc
  · refine (step_framed hi).mono_post fun pool hframe => ?_
    refine h.frame_nil hsent hframe fun target _ _ hsome => ?_
    rw [hsome] at htarget
    exact absurd rfl htarget

theorem Inv.schedule (h : p.Inv) (hretained : p.Retained (.schedule op)) :
    IfOk (p.schedule op) Inv := by
  unfold PrefillInstance.schedule
  by_cases hnot : ∃ i ∈ op.sequence?, i ∈ p.sent
  · rw [if_pos hnot]
    exact h
  · rw [if_neg hnot]
    have hsent : ∀ i, op.sequence? = some i → i ∉ p.sent :=
      fun i hi hmem => hnot ⟨i, hi, hmem⟩
    cases op with
    | tryAllocate i => exact h
    | forward i allowedMaxTokens cpSize isPrefill =>
        simp only
        split
        · exact h
        · rename_i seq hseq
          exact (h.forward allowedMaxTokens cpSize isPrefill (hsent i rfl) hseq hretained).bind
            fun _ hinv => hinv
    | arrive promptTokenIds capacity beamWidth =>
        refine Ensures.bind (Q := fun pool => Inv { p with pool := pool }) ?_ fun _ hinv => hinv
        refine ensures_any.bind fun seq _ => ?_
        have hinv := h.arrive seq none fun _ hnone => by cases hnone
        rw [Function.update_eq_self_iff.mpr h.targets_length.symm] at hinv
        exact hinv
    | _ =>
        exact (h.serve rfl (hsent _ rfl) (by simp) (by simp) hretained).bind fun _ hinv => hinv

/-- The first token is only there when a batch has reached the end of the prompt. -/
theorem Inv.sendFirstGeneration (h : p.Inv) (i : Nat) : IfOk (p.sendFirstGeneration i) Inv := by
  rw [PrefillInstance.sendFirstGeneration]
  split
  · exact h
  · rename_i seq hseq
    split
    · rename_i hready
      obtain ⟨hsent, hone⟩ := hready
      have hframed : IfOk (p.pool.step (.deallocate i))
          (p.pool.Framed i fun seq seq' => seq'.numPromptTokens = seq.numPromptTokens) :=
        PoolState.serve_framed fun seq _ => Serving.deallocate_numPromptTokens ⟨p.pool.rank, seq⟩
      refine hframed.bind fun pool hframe => ?_
      refine ⟨?_, ?_, ?_, ?_, h.fits, ?_⟩
      · intro j target hj
        rw [hframe.length_eq]
        exact h.targets_lt j target hj
      · intro row hrow
        rw [hframe.length_eq]
        exact h.rows_lt row hrow
      · intro j hj
        rw [hframe.length_eq]
        rcases List.mem_append.mp hj with hj | hj
        · exact h.sent_lt j hj
        · rw [List.mem_singleton.mp hj]
          exact (List.getElem?_eq_some_iff.mp hseq).1
      · intro j target seq' hj hnot hseq'
        have hji : j ≠ i :=
          fun he => hnot (mem_append_right _ (List.mem_singleton.mpr he))
        rw [hframe.others j hji] at hseq'
        exact h.live j target seq' hj (fun hmem => hnot (mem_append_left _ hmem)) hseq'
      · intro j hj target seq' htarget hseq'
        rcases List.mem_append.mp hj with hj | hj
        · rw [hframe.others j fun he => hsent (he ▸ hj)] at hseq'
          exact h.covered j hj target seq' htarget hseq'
        · obtain rfl := List.mem_singleton.mp hj
          obtain ⟨seq'', hseq'', hprompt⟩ := hframe.self seq hseq
          rw [← Option.some.inj (hseq''.symm.trans hseq'), hprompt]
          rcases (h.live j target seq htarget hsent hseq).waiting with hcovered | hwaiting
          · exact hcovered
          · omega
    · exact h

theorem Inv.step (h : p.Inv) {op : PrefillOp} (hretained : p.Retained op) :
    IfOk (p.step op) Inv := by
  cases op with
  | dispatch promptTokenIds capacity beamWidth target =>
      rw [PrefillInstance.step, Sequence.create]
      split
      · rename_i hroom
        refine h.arrive _ (some target) fun t ht => ?_
        obtain rfl := Option.some.inj ht
        exact ⟨rfl, .inr ⟨rfl, List.length_pos_iff.mpr hroom.1⟩⟩
      · exact trivial
  | schedule op => exact h.schedule hretained
  | sendFirstGeneration i => exact h.sendFirstGeneration i

/-- In every run in which no dispatched sequence is rolled back or released before its first
token is sent, its prompt is computed with its target. -/
theorem run_delivered {pool : PoolState} {ops : List PrefillOp}
    (hops : Along step Retained { pool := pool } ops) :
    Ensures (run step { pool := pool } ops) (fun _ => True) Delivered := by
  have hstart : Inv { pool := pool } := by
    refine ⟨fun i target hi => ?_, forall_mem_nil _, forall_mem_nil _,
      fun i target seq hi => ?_, forall_mem_nil _, forall_mem_nil _⟩
    · cases hi
    · cases hi
  have hrun := hops.ensures_run (I := Inv) (E := fun _ => True) (fun _ _ h hop => h.step hop) hstart
  exact hrun.mono_post fun _ h => h.delivered

end

instance [XXH3] (p : PrefillInstance) (op : PrefillOp) : Decidable (p.Retained op) := by
  unfold Retained
  split <;> infer_instance

theorem twoBlocks_sharedNum_le : 0 ≤ ([7, 8] : List Int32).length := Nat.zero_le _

def twoBlocks : Target where
  remoteBlocks := [7, 8]
  sharedNum := 0
  info := ⟨[], [], [7, 8], 0, {}, []⟩
  sharedNum_le := twoBlocks_sharedNum_le
  length_lt := Nat.le_of_ble_eq_true rfl
  remoteBlocksIds_eq := rfl

/-- Each row: the sequence, where it starts and ends, and whether it is pushed. -/
def computed (p : PrefillInstance) : List (Nat × Nat × Nat × Bool) :=
  p.rows.map fun row => (row.index, row.start, row.seqLen, row.pushed.isSome)

theorem not_delivered_of_computed {p : PrefillInstance} {i start seqLen n : Nat}
    (hcomputed : (i, start, seqLen, false) ∈ p.computed) (hdispatched : (p.targets i).isSome = true)
    (hprompt : (p.pool.sequences[i]?).map Sequence.numPromptTokens = some n) (hstart : start < n) :
    ¬ p.Delivered := by
  intro h
  obtain ⟨row, hrow, heq⟩ := List.mem_map.mp hcomputed
  simp only [Prod.mk.injEq] at heq
  obtain ⟨rfl, rfl, -, hnone⟩ := heq
  obtain ⟨target, htarget⟩ := Option.isSome_iff_exists.mp hdispatched
  obtain ⟨seq, hseq, rfl⟩ := Option.map_eq_some_iff.mp hprompt
  rw [h.carried row hrow target htarget seq hseq hstart] at hnone
  cases hnone

/-- Another sequence holds the blocks when the dispatched one is first tried. The rollback
clears its target; when the blocks are free again the prompt is computed, nothing is pushed,
and the first token is sent. -/
theorem rollback_loses_target :
    let _ : XXH3 := XXH3.lastBytes
    Ensures (PoolState.create ⟨4, 2, true⟩ ⟨1, 2, true⟩ 4 true >>= fun pool =>
      run step { pool := pool }
        [.schedule (.arrive [1, 2, 3, 4] 8 1), .schedule (.allocate 0 4),
          .dispatch [5, 6, 7, 8] 16 1 twoBlocks, .schedule (.allocate 1 4),
          .schedule (.deallocate 0), .schedule (.allocate 1 4),
          .schedule (.forward 1 4 1 true), .schedule (.appendToken 1 9), .sendFirstGeneration 1])
      (fun _ => False)
      (fun p => p.sent = [1] ∧ p.computed = [(1, 0, 4, false)] ∧ ¬ p.Delivered) := by
  intro hash
  have hrun : Ensures (PoolState.create ⟨4, 2, true⟩ ⟨1, 2, true⟩ 4 true >>= fun pool =>
      run step { pool := pool }
        [.schedule (.arrive [1, 2, 3, 4] 8 1), .schedule (.allocate 0 4),
          .dispatch [5, 6, 7, 8] 16 1 twoBlocks, .schedule (.allocate 1 4),
          .schedule (.deallocate 0), .schedule (.allocate 1 4),
          .schedule (.forward 1 4 1 true), .schedule (.appendToken 1 9), .sendFirstGeneration 1])
      (fun _ => False)
      (fun p => p.sent = [1] ∧ p.computed = [(1, 0, 4, false)] ∧ (p.targets 1).isSome = true ∧
        (p.pool.sequences[1]?).map Sequence.numPromptTokens = some 4) := by
    decide +kernel
  refine hrun.mono_post fun p hp => ⟨hp.1, hp.2.1, ?_⟩
  have hrow : (1, 0, 4, false) ∈ p.computed := by
    rw [hp.2.1]
    exact mem_cons_self
  exact not_delivered_of_computed hrow hp.2.2.1 hp.2.2.2 (by decide)

/-- With room for both sequences the dispatched one is prefilled in two chunks, with all its
blocks from the first on. -/
theorem run_delivered_two_chunks :
    let _ : XXH3 := XXH3.lastBytes
    ∃ pool, PoolState.create ⟨8, 2, true⟩ ⟨1, 2, true⟩ 4 true = .ok pool ∧
      Ensures (run step { pool := pool }
        [.schedule (.arrive [1, 2, 3, 4] 8 1), .schedule (.allocate 0 4),
          .dispatch [5, 6, 7, 8] 16 1 twoBlocks, .schedule (.allocate 1 4),
          .schedule (.forward 1 2 1 true), .schedule (.deallocate 0),
          .schedule (.forward 1 2 1 true), .schedule (.appendToken 1 9), .sendFirstGeneration 1])
        (fun _ => True) Delivered := by
  intro hash
  refine ⟨_, rfl, run_delivered ?_⟩
  change Along (@step XXH3.lastBytes) (@Retained XXH3.lastBytes) _ _
  clear hash
  decide +kernel

end PrefillInstance

end DisaggPD

end Xllm
