import Xllm.DisaggPD.DecodeInstance

/-!
# Custody on the decode instance

The handlers of a decode instance keep the three maps in agreement, whatever the order of
the messages. They do not always keep the blocks: a request that is given up without
`deallocate` frees its handles, but `num_used_blocks_` still counts its blocks. This happens
in `unlink_instance`, and in `decode_recv_first_generation` when `request_queue_` is full.
-/

namespace Xllm.DisaggPD

open Contract Ledger List Function
open SharedMemory (Text)

namespace DecodeInstance

variable {d d' : DecodeInstance} {ref : SequenceRef} {options : Options}

structure Booked (d : DecodeInstance) : Prop where
  same_requests : ∀ reqId,
    (d.receivedRequestMap reqId).isSome ↔ (d.requestToInstanceMap reqId).isSome
  instance_requests : ∀ name reqId,
    reqId ∈ d.receivedFrom name ↔ d.requestToInstanceMap reqId = some name

/-- The ranks are tidy, and every sequence with blocks has a holder. The sequence that a
handler is working on may have none. -/
structure Held (options : Options) (pending : Option SequenceRef) (d : DecodeInstance) :
    Prop where
  pools : ∀ pool ∈ d.ranks, pool.Tidy options
  holders : ∀ ref seq, some ref ≠ pending → d.sequence? ref = some seq →
    seq.kvState.blocks ≠ [] → d.Holds ref

theorem deviceHandles_eq_zero {pool : PoolState} (h : pool.Tidy options)
    (hnil : ∀ seq ∈ pool.sequences, seq.kvState.blocks = []) :
    PoolState.deviceHandles pool.sequences = 0 := by
  refine sum_eq_zero fun x hx => ?_
  obtain ⟨seq, hseq, rfl⟩ := List.mem_map.mp hx
  rw [KVCacheState.handles, hnil seq hseq, h.src_nil seq hseq, handles_nil, zero_add]

theorem custody_of_held (hheld : d.Held options none) (hbooked : d.Booked) : d.Custody := by
  have hholders : ∀ ref seq, d.sequence? ref = some seq → seq.kvState.blocks ≠ [] →
      d.Holds ref := fun ref seq => hheld.holders ref seq (Option.some_ne_none ref)
  refine ⟨hbooked.same_requests, hbooked.instance_requests, hholders,
    fun pool hpool => (hheld.pools pool hpool).usedBlocks_eq, ?_⟩
  intro hreceived hqueue hscheduled pool hpool
  rw [(hheld.pools pool hpool).usedBlocks_eq, deviceHandles_eq_zero (hheld.pools pool hpool)]
  · rfl
  · intro seq hseq
    by_contra hne
    obtain ⟨dpRank, hrank⟩ := mem_iff_getElem?.mp hpool
    obtain ⟨index, hindex⟩ := mem_iff_getElem?.mp hseq
    have hsequence : d.sequence? ⟨dpRank, index⟩ = some seq := by
      rw [sequence?, hrank]
      exact hindex
    rcases hholders _ seq hsequence hne with ⟨reqId, hreq⟩ | hmem | hmem
    · rw [hreceived reqId] at hreq
      cases hreq
    · rw [hqueue] at hmem
      cases hmem
    · rw [hscheduled] at hmem
      cases hmem

/-- Nothing has changed but the sequence `ref`, of which `P` holds now. -/
structure Touched (options : Options) (d : DecodeInstance) (ref : SequenceRef)
    (P : Sequence → Prop) (d' : DecodeInstance) : Prop where
  pools : ∀ pool ∈ d'.ranks, pool.Tidy options
  others : ∀ ref', ref' ≠ ref → d'.sequence? ref' = d.sequence? ref'
  self : ∀ seq, d'.sequence? ref = some seq → P seq
  length_eq : d'.ranks.length = d.ranks.length
  rest : d' = { d with ranks := d'.ranks }

variable {P : Sequence → Prop}

theorem Touched.setRank {pool pool' : PoolState}
    (hpools : ∀ pool ∈ d.ranks, pool.Tidy options) (hrank : d.ranks[ref.dpRank]? = some pool)
    (htidy : pool'.Tidy options)
    (hothers : ∀ j, j ≠ ref.index → pool'.sequences[j]? = pool.sequences[j]?)
    (hself : ∀ seq, pool'.sequences[ref.index]? = some seq → P seq) :
    Touched options d ref P (d.setRank ref.dpRank pool') := by
  obtain ⟨hlt, -⟩ := List.getElem?_eq_some_iff.mp hrank
  have hsame : (d.setRank ref.dpRank pool').ranks[ref.dpRank]? = some pool' := by
    rw [DecodeInstance.setRank, getElem?_set_self hlt]
  refine ⟨fun p hp => ?_, fun ref' hne => ?_, fun seq hseq => ?_, List.length_set .., rfl⟩
  · rcases mem_or_eq_of_mem_set hp with hp | rfl
    · exact hpools p hp
    · exact htidy
  · by_cases hdp : ref'.dpRank = ref.dpRank
    · have hindex : ref'.index ≠ ref.index := by
        intro hindex
        apply hne
        cases ref
        cases ref'
        simp_all
      rw [sequence?, sequence?, hdp, hsame, hrank]
      exact hothers ref'.index hindex
    · rw [sequence?, sequence?, DecodeInstance.setRank, getElem?_set_ne (Ne.symm hdp)]
  · rw [sequence?, hsame] at hseq
    exact hself seq hseq

/-- An operation of one rank leaves the other ranks as they are. -/
theorem onRank_ensures {f : PoolState → Except Check PoolState}
    (hpools : ∀ pool ∈ d.ranks, pool.Tidy options)
    (hf : ∀ pool, d.ranks[ref.dpRank]? = some pool →
      IfOk (f pool) (pool.Touched options ref.index P)) :
    IfOk (d.onRank ref.dpRank f) (Touched options d ref P) := by
  rw [onRank]
  split
  · rename_i hnone
    refine ⟨hpools, fun _ _ => rfl, fun seq hseq => ?_, rfl, rfl⟩
    rw [sequence?, hnone] at hseq
    cases hseq
  · rename_i pool hrank
    refine (hf pool hrank).bind fun pool' hpool => ?_
    exact .setRank hpools hrank hpool.tidy hpool.others hpool.self

theorem Held.touch {pending : Option SequenceRef}
    (h : d.Held options pending) (ht : Touched options d ref P d')
    (hpending : pending = none ∨ pending = some ref) : d'.Held options (some ref) := by
  refine ⟨ht.pools, fun ref' seq hne hseq hblocks => ?_⟩
  have hother : ref' ≠ ref := fun he => hne (congrArg some he)
  have hholds : d.Holds ref' := by
    refine h.holders ref' seq ?_ ?_ hblocks
    · rcases hpending with rfl | rfl
      · exact Option.some_ne_none ref'
      · exact hne
    · rw [← ht.others ref' hother]
      exact hseq
  rw [ht.rest]
  exact hholds

theorem Held.settle (h : d.Held options (some ref))
    (hnil : ∀ seq, d.sequence? ref = some seq → seq.kvState.blocks = [] ∨ d.Holds ref) :
    d.Held options none := by
  refine ⟨h.pools, fun ref' seq _ hseq hblocks => ?_⟩
  by_cases he : ref' = ref
  · subst he
    rcases hnil seq hseq with hnil | hholds
    · exact absurd hnil hblocks
    · exact hholds
  · exact h.holders ref' seq (fun hs => he (Option.some.inj hs)) hseq hblocks

theorem Booked.touch (h : d.Booked) (ht : Touched options d ref P d') :
    d'.Booked := by
  rw [ht.rest]
  exact ⟨h.same_requests, h.instance_requests⟩

/-- Other sequences hold all blocks of the sequence. Without the prefix cache nothing is
counted. -/
def ReleaseKept (pool : PoolState) (index : Nat) : Prop :=
  pool.rank.blockManager.options.enablePrefixCache = true → ∀ seq ∈ pool.sequences[index]?,
    ids (handles seq.kvState.blocks) ⊆ ids (pool.others index)

theorem releaseKept_of_nil {pool : PoolState} {index : Nat}
    (h : ∀ seq, pool.sequences[index]? = some seq → seq.kvState.blocks = []) :
    ReleaseKept pool index := by
  intro _ seq hseq
  rw [h seq hseq]
  exact Finset.empty_subset _

/-- A released sequence holds nothing. -/
theorem release_ensures (hpools : ∀ pool ∈ d.ranks, pool.Tidy options)
    (hkept : ∀ pool, d.ranks[ref.dpRank]? = some pool → ReleaseKept pool ref.index) :
    IfOk (d.release ref) (Touched options d ref fun seq => seq = {}) := by
  refine onRank_ensures hpools fun pool hrank => ?_
  have htidy := hpools pool (mem_of_getElem? hrank)
  refine htidy.destroy fun henabled seq hseq => hkept pool hrank ?_ seq hseq
  rw [htidy.inv.options_eq]
  exact henabled

theorem Held.release (h : d.Held options (some ref)) (hbooked : d.Booked)
    (hkept : ∀ pool, d.ranks[ref.dpRank]? = some pool → ReleaseKept pool ref.index) :
    IfOk (d.release ref) (fun d' => d'.Held options none ∧ d'.Booked) := by
  refine (release_ensures h.pools hkept).mono_post fun d' ht => ⟨?_, hbooked.touch ht⟩
  refine (h.touch ht (.inr rfl)).settle fun seq hseq => .inl ?_
  rw [ht.self seq hseq]

theorem releaseKept_of_sequence (h : ∀ seq, d.sequence? ref = some seq → seq.kvState.blocks = [])
    (pool : PoolState) (hrank : d.ranks[ref.dpRank]? = some pool) :
    ReleaseKept pool ref.index := by
  refine releaseKept_of_nil fun seq hseq => h seq ?_
  rw [sequence?, hrank]
  exact hseq

section

theorem getElem?_concat_of_ne (seqs : List Sequence) (seq : Sequence) (j : Nat)
    (hj : j ≠ seqs.length) : (seqs ++ [seq])[j]? = seqs[j]? := by
  rcases Nat.lt_or_gt_of_ne hj with hlt | hgt
  · rw [getElem?_append_left hlt]
  · rw [getElem?_eq_none (by rw [length_append, length_singleton]; omega),
      getElem?_eq_none (by omega)]

theorem arrive_ensures (request : Request) : IfOk (d.arrive request) (fun r => ∃ pool seq,
      d.ranks[r.1.dpRank]? = some pool ∧ r.1.index = pool.sequences.length ∧
      r.2 = { pool with sequences := pool.sequences ++ [seq] } ∧
      seq.kvState = {} ∧ seq.hostKvState = {}) := by
  rw [arrive]
  split
  · exact trivial
  · rename_i pool hrank
    refine (Sequence.create_ensures _ _ _).ifOk.bind
      fun seq hseq => ?_
    exact ⟨pool, seq, hrank, rfl, rfl, hseq.1, hseq.2.1⟩

theorem Booked.register (h : d.Booked) {reqId : Text} (name : Text) (ref : SequenceRef)
    (hnew : d.receivedRequestMap reqId = none) : (d.register reqId name ref).Booked := by
  have hunknown : d.requestToInstanceMap reqId = none := by
    have hsame := h.same_requests reqId
    rw [hnew] at hsame
    simpa using hsame
  refine ⟨fun reqId' => ?_, fun name' reqId' => ?_⟩
  · by_cases he : reqId' = reqId
    · simp [DecodeInstance.register, he]
    · simp only [DecodeInstance.register, update_of_ne he]
      exact h.same_requests reqId'
  · have hother := h.instance_requests name' reqId'
    rw [receivedFrom] at hother
    by_cases hname : name' = name
    · subst hname
      simp only [receivedFrom, DecodeInstance.register, update_self, Option.getD_some]
      by_cases he : reqId' = reqId
      · subst he
        rw [update_self]
        refine iff_of_true ?_ rfl
        split
        · assumption
        · exact mem_append_right _ mem_cons_self
      · rw [update_of_ne he, ← hother]
        split
        · exact Iff.rfl
        · rw [mem_append, mem_singleton, or_iff_left he]
    · simp only [receivedFrom, DecodeInstance.register, update_of_ne hname]
      by_cases he : reqId' = reqId
      · subst he
        rw [hother, hunknown, update_self]
        exact iff_of_false (Option.some_ne_none name').symm
          fun hs => hname (Option.some.inj hs).symm
      · rw [update_of_ne he]
        exact hother

@[simp] theorem register_receivedRequestMap (d : DecodeInstance) (reqId name : Text)
    (ref : SequenceRef) : (d.register reqId name ref).receivedRequestMap =
      update d.receivedRequestMap reqId (some ref) := rfl

theorem Held.register (h : d.Held options (some ref)) {reqId : Text} (name : Text)
    (hnew : d.receivedRequestMap reqId = none) :
    (d.register reqId name ref).Held options none := by
  refine ⟨h.pools, fun ref' seq _ hseq hblocks => ?_⟩
  by_cases he : ref' = ref
  · exact .inl ⟨reqId, by rw [he, register_receivedRequestMap, update_self]⟩
  · rcases h.holders ref' seq (fun hs => he (Option.some.inj hs)) hseq hblocks with
      ⟨reqId', hreq⟩ | hmem
    · have hne : reqId' ≠ reqId := by
        rintro rfl
        rw [hnew] at hreq
        cases hreq
      refine .inl ⟨reqId', ?_⟩
      rw [register_receivedRequestMap, update_of_ne hne]
      exact hreq
    · exact .inr hmem

theorem Booked.unregister (h : d.Booked) (reqId : Text) : (d.unregister reqId).Booked := by
  rw [DecodeInstance.unregister]
  simp only
  split
  · rename_i hnone
    refine ⟨fun reqId' => ?_, h.instance_requests⟩
    by_cases he : reqId' = reqId
    · simp [he, hnone]
    · simp only [update_of_ne he]
      exact h.same_requests reqId'
  · rename_i name hname
    refine ⟨fun reqId' => ?_, fun name' reqId' => ?_⟩
    · by_cases he : reqId' = reqId
      · simp [he]
      · simp only [update_of_ne he]
        exact h.same_requests reqId'
    · have hother := h.instance_requests name' reqId'
      rw [receivedFrom] at hother
      by_cases hsame : name' = name
      · subst hsame
        simp only [receivedFrom, update_self, Option.getD_some, mem_filter,
          decide_eq_true_eq]
        by_cases he : reqId' = reqId
        · simp [he]
        · rw [update_of_ne he, ← hother]
          exact and_iff_left he
      · simp only [receivedFrom, update_of_ne hsame]
        by_cases he : reqId' = reqId
        · subst he
          rw [update_self, hother, hname]
          exact iff_of_false (fun hs => hsame (Option.some.inj hs).symm)
            (Option.some_ne_none name').symm
        · rw [update_of_ne he]
          exact hother

@[simp] theorem unregister_receivedRequestMap (d : DecodeInstance) (reqId : Text) :
    (d.unregister reqId).receivedRequestMap = update d.receivedRequestMap reqId none := by
  rw [DecodeInstance.unregister]
  split <;> rfl

theorem unregister_ranks (d : DecodeInstance) (reqId : Text) :
    (d.unregister reqId).ranks = d.ranks ∧ (d.unregister reqId).requestQueue = d.requestQueue ∧
      (d.unregister reqId).scheduled = d.scheduled ∧
      (d.unregister reqId).options = d.options := by
  rw [DecodeInstance.unregister]
  split <;> exact ⟨rfl, rfl, rfl, rfl⟩

theorem Held.forget {reqId : Text} (h : d.Held options none)
    (href : d.receivedRequestMap reqId = some ref) (hranks : d'.ranks = d.ranks)
    (hqueue : d'.requestQueue = d.requestQueue) (hscheduled : d'.scheduled = d.scheduled)
    (hreceived : d'.receivedRequestMap = update d.receivedRequestMap reqId none) :
    d'.Held options (some ref) := by
  refine ⟨by rw [hranks]; exact h.pools, fun ref' seq hne hseq hblocks => ?_⟩
  have hsame : d'.sequence? ref' = d.sequence? ref' := by rw [sequence?, sequence?, hranks]
  rw [hsame] at hseq
  rcases h.holders ref' seq (Option.some_ne_none ref') hseq hblocks with ⟨reqId', hreq⟩ | hmem
  · have hother : reqId' ≠ reqId := by
      rintro rfl
      rw [href] at hreq
      exact hne hreq.symm
    refine .inl ⟨reqId', ?_⟩
    rw [hreceived, update_of_ne hother]
    exact hreq
  · refine .inr ?_
    rw [hqueue, hscheduled]
    exact hmem

/-- Whether the other sequences hold the blocks does not depend on the tokens. -/
theorem ReleaseKept.touch (hpools : ∀ pool ∈ d.ranks, pool.Tidy options)
    (ht : Touched options d ref (fun seq' =>
      ∃ seq, d.sequence? ref = some seq ∧ seq'.kvState.blocks = seq.kvState.blocks) d')
    (hkept : ∀ pool, d.ranks[ref.dpRank]? = some pool → ReleaseKept pool ref.index)
    (pool' : PoolState) (hrank' : d'.ranks[ref.dpRank]? = some pool') :
    ReleaseKept pool' ref.index := by
  obtain ⟨hlt, -⟩ := List.getElem?_eq_some_iff.mp hrank'
  rw [ht.length_eq] at hlt
  have hrank : d.ranks[ref.dpRank]? = some d.ranks[ref.dpRank] := getElem?_eq_getElem hlt
  have htidy := hpools _ (mem_of_getElem? hrank)
  have htidy' := ht.pools pool' (mem_of_getElem? hrank')
  have hothers : ∀ j, j ≠ ref.index →
      pool'.sequences[j]? = d.ranks[ref.dpRank].sequences[j]? := by
    intro j hj
    have hsame := ht.others ⟨ref.dpRank, j⟩ fun he => hj (congrArg SequenceRef.index he)
    rw [sequence?, sequence?, hrank, hrank'] at hsame
    exact hsame
  have hself : ∀ seq', pool'.sequences[ref.index]? = some seq' →
      ∃ seq, d.sequence? ref = some seq ∧ seq'.kvState.blocks = seq.kvState.blocks := by
    intro seq' hseq'
    refine ht.self seq' ?_
    rw [sequence?, hrank']
    exact hseq'
  have htouched : PoolState.Touched options d.ranks[ref.dpRank] ref.index _ pool' :=
    ⟨htidy', hothers, hself⟩
  intro henabled seq' hseq'
  obtain ⟨seq, hseq, hblocks⟩ := hself seq' hseq'
  rw [sequence?, hrank] at hseq
  rw [hblocks, htouched.others_eq]
  refine hkept _ hrank ?_ seq hseq
  rw [htidy.inv.options_eq, ← htidy'.inv.options_eq]
  exact henabled

structure Unlinking (options : Options) (name : Text) (start : DecodeInstance)
    (reqIds rest : List Text) (d : DecodeInstance) : Prop where
  held : d.Held options none
  same_requests : ∀ reqId,
    (d.receivedRequestMap reqId).isSome ↔ (d.requestToInstanceMap reqId).isSome
  others : ∀ name', name' ≠ name → ∀ reqId,
    reqId ∈ d.receivedFrom name' ↔ d.requestToInstanceMap reqId = some name'
  to_do : ∀ reqId, d.requestToInstanceMap reqId = some name → reqId ∈ rest
  from_name : ∀ reqId ∈ rest, ∀ name', d.requestToInstanceMap reqId = some name' → name' = name
  rest_subset : ∀ reqId ∈ rest, reqId ∈ reqIds
  started : ∀ reqId ref, d.receivedRequestMap reqId = some ref →
    start.receivedRequestMap reqId = some ref
  stays : options.enablePrefixCache = true → ∀ reqId ∈ rest, ∀ ref,
    d.receivedRequestMap reqId = some ref → ∀ seq, d.sequence? ref = some seq →
    ∀ b ∈ seq.kvState.blocks, ∃ index seq', d.sequence? ⟨ref.dpRank, index⟩ = some seq' ∧
      (∀ reqId' ∈ reqIds, start.receivedRequestMap reqId' ≠ some ⟨ref.dpRank, index⟩) ∧
      b.id ∈ seq'.kvState.blocks.map Block.id

theorem id_mem_others {pool : PoolState} {index index' : Nat} {seq' : Sequence} {b : Block}
    (htidy : pool.Tidy options) (hne : index' ≠ index)
    (hseq' : pool.sequences[index']? = some seq') (hb : b ∈ seq'.kvState.blocks) :
    b.id ∈ ids (pool.others index) := by
  have hvalid := (htidy.inv.blocks seq' (mem_of_getElem? hseq') b hb).1
  have hmem : seq' ∈ pool.sequences.eraseIdx index :=
    mem_eraseIdx_iff_getElem?.mpr ⟨index', hne, hseq'⟩
  have hids := id_mem_ids_handles hb hvalid
  obtain ⟨k, hk, hid⟩ := mem_ids.mp hids
  refine mem_ids.mpr ⟨k, ?_, hid⟩
  obtain ⟨before, behind, hsplit⟩ := append_of_mem hmem
  rw [PoolState.others, PoolState.deviceHandles, hsplit, map_append,
    sum_append]
  exact Multiset.mem_add.mpr (.inr (Multiset.mem_add.mpr (.inl (Multiset.mem_add.mpr (.inl hk)))))

variable {reqIds rest : List Text} {start : DecodeInstance}

theorem Unlinking.releaseKept {name reqId : Text}
    (h : Unlinking options name start reqIds (reqId :: rest) d)
    (href : d.receivedRequestMap reqId = some ref) (pool : PoolState)
    (hrank : d.ranks[ref.dpRank]? = some pool) : ReleaseKept pool ref.index := by
  have htidy := h.held.pools pool (mem_of_getElem? hrank)
  intro henabled seq hseq
  rw [htidy.inv.options_eq] at henabled
  refine Serving.ids_handles_subset fun b hb => ?_
  have hsequence : d.sequence? ref = some seq := by
    rw [sequence?, hrank]
    exact hseq
  obtain ⟨index, seq', hseq', hstays, hid⟩ :=
    h.stays henabled reqId mem_cons_self ref href seq hsequence b hb
  have hne : index ≠ ref.index := by
    rintro rfl
    exact hstays reqId (h.rest_subset reqId mem_cons_self) (h.started reqId ref href)
  rw [sequence?, hrank] at hseq'
  obtain ⟨b', hb', hid'⟩ := List.mem_map.mp hid
  rw [← hid']
  exact id_mem_others htidy hne hseq' hb'

theorem Unlinking.erased {name reqId : Text}
    (h : Unlinking options name start reqIds (reqId :: rest) d) (hheld : d'.Held options none)
    (hreceived : d'.receivedRequestMap = update d.receivedRequestMap reqId none)
    (hinstance : d'.requestToInstanceMap = update d.requestToInstanceMap reqId none)
    (hsets : d'.instanceToReceivedRequestsMap = d.instanceToReceivedRequestsMap)
    (hsequences : ∀ ref, d'.sequence? ref = d.sequence? ref ∨
      (d.receivedRequestMap reqId = some ref ∧
        ∀ seq, d'.sequence? ref = some seq → seq.kvState.blocks = [])) :
    Unlinking options name start reqIds rest d' := by
  have hkeep : ∀ reqId' ref', d'.receivedRequestMap reqId' = some ref' →
      reqId' ≠ reqId ∧ d.receivedRequestMap reqId' = some ref' := by
    intro reqId' ref' hreq
    rw [hreceived] at hreq
    by_cases he : reqId' = reqId
    · rw [he, update_self] at hreq
      cases hreq
    · rw [update_of_ne he] at hreq
      exact ⟨he, hreq⟩
  refine ⟨hheld, fun reqId' => ?_, fun name' hname reqId' => ?_, fun reqId' hreq => ?_,
    fun reqId' hmem name' hreq => ?_,
    fun reqId' hmem => h.rest_subset reqId' (mem_cons_of_mem _ hmem),
    fun reqId' ref' hreq => h.started reqId' ref' (hkeep reqId' ref' hreq).2, ?_⟩
  · rw [hreceived, hinstance]
    by_cases he : reqId' = reqId
    · simp [he]
    · rw [update_of_ne he, update_of_ne he]
      exact h.same_requests reqId'
  · rw [receivedFrom, hsets, hinstance]
    have hother := h.others name' hname reqId'
    rw [receivedFrom] at hother
    by_cases he : reqId' = reqId
    · subst he
      rw [hother, update_self]
      refine iff_of_false (fun hs => ?_) (Option.some_ne_none name').symm
      exact hname (h.from_name reqId' mem_cons_self name' hs)
    · rw [update_of_ne he]
      exact hother
  · rw [hinstance] at hreq
    by_cases he : reqId' = reqId
    · rw [he, update_self] at hreq
      cases hreq
    · rw [update_of_ne he] at hreq
      exact (List.mem_cons.mp (h.to_do reqId' hreq)).resolve_left he
  · rw [hinstance] at hreq
    by_cases he : reqId' = reqId
    · rw [he, update_self] at hreq
      cases hreq
    · rw [update_of_ne he] at hreq
      exact h.from_name reqId' (mem_cons_of_mem _ hmem) name' hreq
  · intro henabled reqId' hmem ref' hreq seq hseq b hb
    obtain ⟨-, hreq⟩ := hkeep reqId' ref' hreq
    have hsame : d'.sequence? ref' = d.sequence? ref' := by
      refine (hsequences ref').resolve_right fun hdropped => ?_
      rw [hdropped.2 seq hseq] at hb
      cases hb
    rw [hsame] at hseq
    obtain ⟨index, seq', hseq', hstays, hid⟩ :=
      h.stays henabled reqId' (mem_cons_of_mem _ hmem) ref' hreq seq hseq b hb
    refine ⟨index, seq', ?_, hstays, hid⟩
    rw [← hseq']
    refine (hsequences _).resolve_right fun hdropped => ?_
    exact hstays reqId (h.rest_subset reqId mem_cons_self)
      (h.started reqId _ hdropped.1)

theorem Unlinking.step {name reqId : Text}
    (h : Unlinking options name start reqIds (reqId :: rest) d) : IfOk (d.dropReceived reqId)
      (Unlinking options name start reqIds rest) := by
  rw [dropReceived]
  split
  · rename_i hnone
    refine h.erased ⟨h.held.pools, fun ref seq _ hseq hblocks => ?_⟩ rfl rfl rfl fun _ => .inl rfl
    rcases h.held.holders ref seq (Option.some_ne_none ref) hseq hblocks with ⟨reqId', hreq⟩ | hmem
    · have hne : reqId' ≠ reqId := by
        rintro rfl
        rw [hnone] at hreq
        cases hreq
      refine .inl ⟨reqId', ?_⟩
      simp only [update_of_ne hne]
      exact hreq
    · exact .inr hmem
  · rename_i ref href
    have hpending : Held options (some ref) { d with
        receivedRequestMap := update d.receivedRequestMap reqId none
        requestToInstanceMap := update d.requestToInstanceMap reqId none } :=
      h.held.forget href rfl rfl rfl rfl
    refine (release_ensures hpending.pools (h.releaseKept href)).mono_post fun d' ht => ?_
    have hblocks : ∀ seq, d'.sequence? ref = some seq → seq.kvState.blocks = [] := by
      intro seq hseq
      rw [ht.self seq hseq]
    refine h.erased ((hpending.touch ht (.inr rfl)).settle fun seq hseq => .inl (hblocks seq hseq))
      ?_ ?_ ?_ fun ref' => ?_
    · rw [ht.rest]
    · rw [ht.rest]
    · rw [ht.rest]
    · by_cases he : ref' = ref
      · subst he
        exact .inr ⟨href, hblocks⟩
      · exact .inl (ht.others ref' he)

theorem Held.read (h : d.Held options none) : d.readRequestQueue.Held options none := by
  rw [readRequestQueue]
  split
  · exact h
  · rename_i ref refs hqueue
    refine ⟨h.pools, fun ref' seq hne hseq hblocks => ?_⟩
    rcases h.holders ref' seq hne hseq hblocks with hreq | hmem | hmem
    · exact .inl hreq
    · rw [hqueue] at hmem
      rcases List.mem_cons.mp hmem with rfl | hmem
      · exact .inr (.inr (mem_append_right _ mem_cons_self))
      · exact .inr (.inl hmem)
    · exact .inr (.inr (mem_append_left _ hmem))

theorem Booked.read (h : d.Booked) : d.readRequestQueue.Booked := by
  rw [readRequestQueue]
  split
  · exact h
  · exact ⟨h.same_requests, h.instance_requests⟩

theorem Held.expand (h : d.Held options none) (hbooked : d.Booked) (ref : SequenceRef)
    (dpRank : Nat) : IfOk (d.expand ref dpRank) (fun d' => d'.Held options none ∧ d'.Booked) := by
  rw [DecodeInstance.expand]
  split
  · rename_i first pool hfirst hrank
    refine (Sequence.create_ensures _ _ _).ifOk.bind
      fun seq hseq => ⟨?_, hbooked.same_requests, hbooked.instance_requests⟩
    have htidy := h.pools pool (mem_of_getElem? hrank)
    have ht : Touched options d ⟨dpRank, pool.sequences.length⟩ (fun s => s.kvState.blocks = [])
        (d.setRank dpRank { pool with sequences := pool.sequences ++ [seq] }) := by
      refine .setRank h.pools hrank (htidy.arrive hseq.1 hseq.2.1)
        (getElem?_concat_of_ne _ _) fun s hs => ?_
      have hget : (pool.sequences ++ [seq])[pool.sequences.length]? = some seq :=
        getElem?_concat_length
      rw [← Option.some.inj (hget.symm.trans hs), hseq.1]
    have hheld := (h.touch ht (.inl rfl)).settle fun s hs => .inl (ht.self s hs)
    refine ⟨hheld.pools, fun ref' s hne hs hblocks => ?_⟩
    rcases hheld.holders ref' s hne hs hblocks with hreq | hmem | hmem
    · exact .inl hreq
    · exact .inr (.inl hmem)
    · exact .inr (.inr (mem_append_left _ hmem))
  · exact ⟨h, hbooked⟩

variable [XXH3]

/-- With the prefix cache, the operation keeps the count of the rank. -/
def PoolKept (pool : PoolState) (op : PoolOp) : Prop :=
  pool.rank.blockManager.options.enablePrefixCache = true → pool.CountKept op

theorem Held.deallocate {pending : Option SequenceRef} (h : d.Held options pending)
    (hpending : pending = none ∨ pending = some ref) (hbooked : d.Booked)
    (hkept : ∀ pool, d.ranks[ref.dpRank]? = some pool → PoolKept pool (.deallocate ref.index)) :
    IfOk (d.onRank ref.dpRank fun pool => pool.step (.deallocate ref.index))
      (fun d' => d'.Held options (some ref) ∧ d'.Booked ∧
        (∀ pool, d'.ranks[ref.dpRank]? = some pool → ReleaseKept pool ref.index) ∧
        d' = { d with ranks := d'.ranks }) := by
  refine (onRank_ensures h.pools fun pool hrank => ?_).mono_post fun d' ht =>
    ⟨h.touch ht hpending, hbooked.touch ht, releaseKept_of_sequence ht.self, ht.rest⟩
  have htidy := h.pools pool (mem_of_getElem? hrank)
  refine htidy.deallocate fun henabled => hkept pool hrank ?_
  rw [htidy.inv.options_eq]
  exact henabled

/-- The decode instance allocates for a request that has just arrived, or refuses it. -/
theorem tryAllocate_ensures (hpools : ∀ pool ∈ d.ranks, pool.Tidy options) {pool : PoolState}
    {seq : Sequence} (hrank : d.ranks[ref.dpRank]? = some pool)
    (hindex : ref.index = pool.sequences.length) (hkv : seq.kvState = {})
    (hhost : seq.hostKvState = {})
    (hkept : utilizationBelow pool.rank.blockManager d.options.memoryUsageThreshold = true →
      PoolKept { pool with sequences := pool.sequences ++ [seq] } (.tryAllocate ref.index)) :
    IfOk (d.tryAllocate { pool with sequences := pool.sequences ++ [seq] } ref.index)
      (fun r => Touched options d ref
        (fun seq' => r.1 = false → seq'.kvState.blocks = []) (d.setRank ref.dpRank r.2)) := by
  have htidy := hpools pool (mem_of_getElem? hrank)
  have harrived := htidy.arrive hkv hhost
  have hget : (pool.sequences ++ [seq])[ref.index]? = some seq := by
    rw [hindex, getElem?_concat_length]
  have hother : ∀ j, j ≠ ref.index → (pool.sequences ++ [seq])[j]? = pool.sequences[j]? := by
    rw [hindex]
    exact getElem?_concat_of_ne pool.sequences seq
  rw [DecodeInstance.tryAllocate]
  split
  · rename_i hbelow
    have hcount : options.enablePrefixCache = true → PoolState.CountKept
        { pool with sequences := pool.sequences ++ [seq] } (.tryAllocate ref.index) := by
      intro henabled
      refine hkept hbelow ?_
      rw [htidy.inv.options_eq]
      exact henabled
    refine (harrived.tryAllocate hget (by rw [hkv]) hcount).mono_post fun r hr => ?_
    exact .setRank hpools hrank hr.tidy (fun j hj => (hr.others j hj).trans (hother j hj)) hr.self
  · refine .setRank hpools hrank harrived hother fun s hs _ => ?_
    have hsame : s = seq := Option.some.inj (hs.symm.trans hget)
    rw [hsame, hkv]

/-- The request is announced without a loss of count: by `try_allocate`, and by `deallocate`
when it is a duplicate. -/
def NewRequestKept (d : DecodeInstance) (req : DisaggRequest) : Prop :=
  ∀ request ∈ generateRequest req, Ensures (d.arrive request) (fun _ => True) fun r =>
    (utilizationBelow r.2.rank.blockManager d.options.memoryUsageThreshold = true →
      PoolKept r.2 (.tryAllocate r.1.index)) ∧
    Ensures (d.tryAllocate r.2 r.1.index) (fun _ => True) fun s =>
      s.1 = true → (d.receivedRequestMap request.requestId).isSome = true →
        PoolKept s.2 (.deallocate r.1.index)

theorem Held.newRequest (h : d.Held options none) (hbooked : d.Booked) (prefillName : Text)
    {req : DisaggRequest} (hkept : d.NewRequestKept req) :
    IfOk (d.decodeRecvNewRequest prefillName req)
      (fun r => r.2.Held options none ∧ r.2.Booked) := by
  rw [decodeRecvNewRequest]
  split
  · exact trivial
  · rename_i request hrequest
    have harrive := (arrive_ensures request).and (hkept request hrequest)
    refine harrive.ifOk.bind fun r hr => ?_
    obtain ⟨ref, pool'⟩ := r
    obtain ⟨⟨pool, seq, hrank, hindex, hpool, hkv, hhost⟩, hbelow, hduplicate⟩ := hr
    simp only at hrank hindex hpool hbelow hduplicate ⊢
    subst hpool
    have htry := (tryAllocate_ensures h.pools hrank hindex hkv hhost hbelow).and hduplicate
    refine htry.ifOk.bind fun s hs => ?_
    obtain ⟨allocated, pool'⟩ := s
    obtain ⟨ht, hduplicate⟩ := hs
    have hpending := h.touch ht (.inl rfl)
    have hbooked' := hbooked.touch ht
    cases allocated with
    | false =>
        refine (hpending.release hbooked' ?_).bind fun d' hd => hd
        exact releaseKept_of_sequence fun seq hseq => ht.self seq hseq rfl
    | true =>
        refine Ensures.bind (Q := fun r => r.2.Held options none ∧ r.2.Booked) ?_ fun r hr => ?_
        · rw [decodeSchedule]
          split
          · rename_i hknown
            refine (hpending.deallocate (.inr rfl) hbooked' fun p hp => ?_).bind fun d' hd => ?_
            · obtain ⟨hlt, -⟩ := List.getElem?_eq_some_iff.mp hrank
              rw [DecodeInstance.setRank, getElem?_set_self hlt] at hp
              rw [← Option.some.inj hp]
              exact hduplicate rfl hknown
            · exact (hd.1.release hd.2.1 hd.2.2.1).bind fun d'' hd => hd
          · rename_i hnew
            have hnone : (d.setRank ref.dpRank pool').receivedRequestMap request.requestId =
                none := by
              simpa using hnew
            exact ⟨hpending.register prefillName hnone, hbooked'.register prefillName ref hnone⟩
        · split <;> exact hr

theorem appendFirstToken_ensures (hpools : ∀ pool ∈ d.ranks, pool.Tidy options) (token : Token) :
    IfOk (d.appendFirstToken ref token) (Touched options d ref fun seq' =>
      ∃ seq, d.sequence? ref = some seq ∧ seq'.kvState.blocks = seq.kvState.blocks) := by
  refine onRank_ensures hpools fun pool hrank => ?_
  have htidy := hpools pool (mem_of_getElem? hrank)
  have hsequence : d.sequence? ref = pool.sequences[ref.index]? := by
    rw [sequence?, hrank]
    rfl
  rw [hsequence]
  split
  · refine (htidy.appendToken ref.index (-1)).bind fun pool₁ h₁ => ?_
    refine (h₁.tidy.updateToken ref.index _ token).mono_post fun pool₂ h₂ => ?_
    refine (h₁.trans h₂).mono fun seq₂ ⟨seq₁, hseq₁, hblocks₁⟩ => ?_
    obtain ⟨seq, hseq, hblocks⟩ := h₁.self seq₁ hseq₁
    exact ⟨seq, hseq, hblocks₁.trans hblocks⟩
  · exact htidy.appendToken ref.index token

/-- The first token finds room in `request_queue_`, or other sequences hold the blocks of
the request that is lost. -/
def FirstGenerationKept (d : DecodeInstance) (gen : DisaggGenerations) : Prop :=
  gen.tokens ≠ [] → ∀ ref ∈ d.receivedRequestMap gen.reqId,
    d.requestQueue.length < d.options.requestQueueSize ∨
      ∀ pool ∈ d.ranks[ref.dpRank]?, ReleaseKept pool ref.index

theorem Held.firstGeneration (h : d.Held options none) (hbooked : d.Booked)
    {gen : DisaggGenerations} (hkept : d.FirstGenerationKept gen) :
    IfOk (d.decodeRecvFirstGeneration gen) (fun r => r.2.Held options none ∧ r.2.Booked) := by
  rw [decodeRecvFirstGeneration]
  split
  · exact ⟨h, hbooked⟩
  rename_i token tokens htokens
  split
  · exact ⟨h, hbooked⟩
  rename_i ref href
  obtain ⟨hranks, hqueue, hscheduled, hoptions⟩ := unregister_ranks d gen.reqId
  have hpending : (d.unregister gen.reqId).Held options (some ref) :=
    h.forget href hranks hqueue hscheduled (unregister_receivedRequestMap d gen.reqId)
  have hbooked' := hbooked.unregister gen.reqId
  refine (appendFirstToken_ensures hpending.pools token).bind fun d' ht => ?_
  have hpending' := hpending.touch ht (.inr rfl)
  have hbooked'' := hbooked'.touch ht
  refine Ensures.bind (Q := fun (e : DecodeInstance) => e.Held options none ∧ e.Booked) ?_
    fun _ hd => hd
  have hsame : d'.requestQueue = d.requestQueue ∧ d'.options = d.options := by
    rw [ht.rest]
    exact ⟨hqueue, hoptions⟩
  rw [writeRequestQueue]
  split
  · have hwritten : Held options (some ref)
        { d' with requestQueue := d'.requestQueue ++ [ref] } := by
      refine ⟨hpending'.pools, fun ref' seq hne hseq hblocks => ?_⟩
      rcases hpending'.holders ref' seq hne hseq hblocks with hreq | hmem | hmem
      · exact .inl hreq
      · exact .inr (.inl (mem_append_left _ hmem))
      · exact .inr (.inr hmem)
    refine ⟨hwritten.settle fun _ _ => ?_, hbooked''.same_requests, hbooked''.instance_requests⟩
    exact .inr (.inr (.inl (mem_append_right _ mem_cons_self)))
  · rename_i hfull
    rw [hsame.1, hsame.2] at hfull
    refine hpending'.release hbooked'' ?_
    refine ReleaseKept.touch hpending.pools ht fun pool hrank => ?_
    rw [hranks] at hrank
    exact (hkept (by rw [htokens]; exact cons_ne_nil _ _) ref href).resolve_left hfull
      pool hrank

/-- Every block of a request that is forgotten is held by a sequence that stays. -/
def UnlinkKept (d : DecodeInstance) (instanceName : Text) : Prop :=
  ∀ reqIds ∈ d.instanceToReceivedRequestsMap instanceName, ∀ reqId ∈ reqIds,
    ∀ ref ∈ d.receivedRequestMap reqId, ∀ pool ∈ d.ranks[ref.dpRank]?,
      pool.rank.blockManager.options.enablePrefixCache = true →
      ∀ seq ∈ pool.sequences[ref.index]?, ∀ b ∈ seq.kvState.blocks,
        ∃ entry ∈ pool.sequences.zipIdx,
          (∀ reqId' ∈ reqIds, d.receivedRequestMap reqId' ≠ some ⟨ref.dpRank, entry.2⟩) ∧
          b.id ∈ entry.1.kvState.blocks.map Block.id

omit [XXH3] in
theorem Held.unlink (h : d.Held options none) (hbooked : d.Booked) {name : Text}
    (hkept : d.UnlinkKept name) : IfOk (d.unlinkInstance name)
      (fun d' => d'.Held options none ∧ d'.Booked) := by
  rw [unlinkInstance]
  split
  · exact ⟨h, hbooked⟩
  rename_i reqIds hreqIds
  have hfrom : ∀ reqId, reqId ∈ reqIds ↔ d.requestToInstanceMap reqId = some name := by
    intro reqId
    rw [← hbooked.instance_requests, receivedFrom, hreqIds, Option.getD_some]
  have hstart : Unlinking options name d reqIds reqIds d := by
    refine ⟨h, hbooked.same_requests, fun name' _ => hbooked.instance_requests name',
      fun reqId hreq => (hfrom reqId).mpr hreq, fun reqId hmem name' hreq => ?_,
      fun _ hmem => hmem, fun _ _ hreq => hreq, ?_⟩
    · rw [(hfrom reqId).mp hmem] at hreq
      exact (Option.some.inj hreq).symm
    · intro henabled reqId hmem ref href seq hseq b hb
      obtain ⟨pool, hrank, hseq⟩ := Option.bind_eq_some_iff.mp hseq
      have htidy := h.pools pool (mem_of_getElem? hrank)
      rw [← htidy.inv.options_eq] at henabled
      obtain ⟨⟨seq', index⟩, hentry, hstays, hid⟩ :=
        hkept reqIds hreqIds reqId hmem ref href pool hrank henabled seq hseq b hb
      refine ⟨index, seq', ?_, hstays, hid⟩
      rw [sequence?, hrank]
      exact List.mem_zipIdx_iff_getElem?.mp hentry
  refine (Ensures.foldlM (I := Unlinking options name d reqIds)
    (fun _ _ _ hloop => Unlinking.step hloop) hstart).bind fun d' hd => ?_
  refine ⟨⟨hd.held.pools, hd.held.holders⟩, hd.same_requests, fun name' reqId => ?_⟩
  by_cases hname : name' = name
  · subst hname
    simp only [receivedFrom, update_self]
    refine iff_of_false List.not_mem_nil fun hreq => ?_
    exact absurd (hd.to_do reqId hreq) List.not_mem_nil
  · simp only [receivedFrom, update_of_ne hname]
    exact hd.others name' hname reqId

theorem Held.schedule (h : d.Held options none) (hbooked : d.Booked) (hmem : ref ∈ d.scheduled)
    {op : SequenceOp}
    (hkept : ∀ pool, d.ranks[ref.dpRank]? = some pool → PoolKept pool (op.at ref.index)) :
    IfOk (d.onRank ref.dpRank fun pool => pool.step (op.at ref.index))
      (fun d' => d'.Held options none ∧ d'.Booked) := by
  refine (onRank_ensures (P := fun _ => True) h.pools fun pool hrank => ?_).mono_post
    fun d' ht => ⟨(h.touch ht (.inl rfl)).settle fun _ _ => .inr ?_, hbooked.touch ht⟩
  · have htidy := h.pools pool (mem_of_getElem? hrank)
    refine htidy.step op fun henabled => hkept pool hrank ?_
    rw [htidy.inv.options_eq]
    exact henabled
  · rw [ht.rest]
    exact .inr (.inr hmem)

theorem Held.finish (h : d.Held options none) (hbooked : d.Booked)
    (hkept : ∀ pool, d.ranks[ref.dpRank]? = some pool → PoolKept pool (.deallocate ref.index)) :
    IfOk (d.finish ref) (fun d' => d'.Held options none ∧ d'.Booked) := by
  refine (h.deallocate (.inl rfl) hbooked hkept).bind fun d₁ h₁ => ?_
  obtain ⟨hpending, hbooked₁, hrelease, -⟩ := h₁
  refine (release_ensures hpending.pools hrelease).bind fun d₂ ht => ?_
  have hheld := hpending.touch ht (.inr rfl)
  have hbooked₂ := hbooked₁.touch ht
  refine ⟨⟨hheld.pools, fun ref' seq _ hseq hblocks => ?_⟩, hbooked₂.same_requests,
    hbooked₂.instance_requests⟩
  have hne : ref' ≠ ref := by
    rintro rfl
    exact hblocks (by rw [ht.self seq hseq])
  rcases hheld.holders ref' seq (fun hs => hne (Option.some.inj hs)) hseq hblocks with
    hreq | hmem | hmem
  · exact .inl hreq
  · exact .inr (.inl hmem)
  · exact .inr (.inr (List.mem_filter.mpr ⟨hmem, decide_eq_true hne⟩))

def Kept (d : DecodeInstance) : DecodeOp → Prop
  | .addNewRequest _ req => d.NewRequestKept req
  | .firstGeneration gen => d.FirstGenerationKept gen
  | .unlinkInstance instanceName => d.UnlinkKept instanceName
  | .schedule ref op => ref ∈ d.scheduled →
      ∀ pool ∈ d.ranks[ref.dpRank]?, PoolKept pool (op.at ref.index)
  | .finish ref => ref ∈ d.scheduled →
      ∀ pool ∈ d.ranks[ref.dpRank]?, PoolKept pool (.deallocate ref.index)
  | _ => True

theorem Held.step (h : d.Held options none) (hbooked : d.Booked) {op : DecodeOp}
    (hop : d.Kept op) : IfOk (d.step op) (fun d' => d'.Held options none ∧ d'.Booked) := by
  cases op with
  | addNewRequest prefillName req =>
      exact (h.newRequest hbooked prefillName hop).bind fun r hr => hr
  | firstGeneration gen => exact (h.firstGeneration hbooked hop).bind fun r hr => hr
  | unlinkInstance instanceName => exact h.unlink hbooked hop
  | readRequestQueue => exact ⟨h.read, hbooked.read⟩
  | expand ref dpRank =>
      rw [DecodeInstance.step]
      split
      · exact h.expand hbooked ref dpRank
      · exact ⟨h, hbooked⟩
  | schedule ref op =>
      rw [DecodeInstance.step]
      split
      · rename_i hmem
        exact h.schedule hbooked hmem (hop hmem)
      · exact ⟨h, hbooked⟩
  | finish ref =>
      rw [DecodeInstance.step]
      split
      · rename_i hmem
        exact h.finish hbooked (hop hmem)
      · exact ⟨h, hbooked⟩

/-- In every run whose steps lose no count the decode instance keeps track of its requests
and of their blocks. -/
theorem run_custody {hostOptions : Options} {numIds : Nat} {concurrent : Bool}
    {decodeOptions : DecodeOptions} {ranks : List PoolState}
    (hranks : ∀ pool ∈ ranks, PoolState.create options hostOptions numIds concurrent = .ok pool)
    {ops : List DecodeOp} (hops : Along step Kept (create decodeOptions ranks) ops) :
    Ensures (run step (create decodeOptions ranks) ops) (fun _ => True) Custody := by
  have hstart : (create decodeOptions ranks).Held options none := by
    refine ⟨fun pool hpool => (PoolState.Tidy.create (hranks pool hpool)).1, ?_⟩
    intro ref seq _ hseq
    obtain ⟨pool, hrank, hseq⟩ := Option.bind_eq_some_iff.mp hseq
    have hnone := (PoolState.Tidy.create (hranks pool (mem_of_getElem? hrank))).2
    rw [hnone] at hseq
    cases hseq
  have hbooked : (create decodeOptions ranks).Booked := by
    refine ⟨fun _ => Iff.rfl, fun name reqId => ?_⟩
    exact iff_of_false List.not_mem_nil (Option.some_ne_none name).symm
  have hrun := hops.ensures_run (I := fun d => d.Held options none ∧ d.Booked)
    (E := fun _ => True) (fun _ _ hd hop => hd.1.step hd.2 hop) ⟨hstart, hbooked⟩
  exact hrun.mono_post fun d hd => custody_of_held hd.1 hd.2

end

instance (pool : PoolState) (index : Nat) : Decidable (ReleaseKept pool index) := by
  unfold ReleaseKept
  infer_instance

instance [XXH3] (pool : PoolState) (op : PoolOp) : Decidable (PoolKept pool op) := by
  unfold PoolKept
  infer_instance

instance [XXH3] (d : DecodeInstance) (op : DecodeOp) : Decidable (d.Kept op) := by
  cases op <;> unfold Kept
  · unfold NewRequestKept
    infer_instance
  · unfold FirstGenerationKept
    infer_instance
  · unfold UnlinkKept
    infer_instance
  all_goals infer_instance

def fourTokens (reqId : UInt8) : DisaggRequest where
  reqId := [reqId]
  promptTokens := [1, 2, 3, 4]
  seqCapacity := 16
  n := 1
  bestOf := 1

/-- The blocks that are counted as used on each rank, and those that some sequence holds. -/
def usedAndHeld (d : DecodeInstance) : List (Nat × Nat) := d.ranks.map fun pool =>
  (pool.rank.blockManager.usedBlocks, (ids (PoolState.deviceHandles pool.sequences)).card)

theorem not_custody_of_usedAndHeld {d : DecodeInstance} {used held : Nat}
    (h : (used, held) ∈ d.usedAndHeld) (hne : used ≠ held) : ¬ d.Custody := by
  intro hcustody
  obtain ⟨pool, hpool, heq⟩ := List.mem_map.mp h
  obtain ⟨rfl, rfl⟩ := Prod.mk.inj heq
  exact hne (hcustody.used_blocks pool hpool)

/-- The blocks of a request stay counted after its prefill instance has been unlinked, and
those of a request that does not fit into `request_queue_` do so, too. -/
theorem forgotten_blocks_stay_counted :
    let _ : XXH3 := XXH3.lastBytes
    let pool := PoolState.create ⟨10, 2, true⟩ ⟨1, 2, true⟩ 4 true
    Ensures (pool >>= fun pool => run step (create {} [pool])
      [.addNewRequest [7] (fourTokens 1), .unlinkInstance [7]]) (fun _ => False)
      (fun d => d.usedAndHeld = [(2, 0)] ∧ ¬ d.Custody) ∧
    Ensures (pool >>= fun pool => run step (create { requestQueueSize := 1 } [pool])
      [.addNewRequest [7] (fourTokens 1), .firstGeneration ⟨[1], [5]⟩,
        .addNewRequest [7] (fourTokens 2), .firstGeneration ⟨[2], [5]⟩]) (fun _ => False)
      (fun d => d.usedAndHeld = [(4, 2)] ∧ ¬ d.Custody) := by
  intro hash pool
  have hunlinked : Ensures (pool >>= fun pool => run step (create {} [pool])
      [.addNewRequest [7] (fourTokens 1), .unlinkInstance [7]]) (fun _ => False)
      (fun d => d.usedAndHeld = [(2, 0)]) := by
    decide +kernel
  have hfull : Ensures (pool >>= fun pool => run step (create { requestQueueSize := 1 } [pool])
      [.addNewRequest [7] (fourTokens 1), .firstGeneration ⟨[1], [5]⟩,
        .addNewRequest [7] (fourTokens 2), .firstGeneration ⟨[2], [5]⟩]) (fun _ => False)
      (fun d => d.usedAndHeld = [(4, 2)]) := by
    decide +kernel
  refine ⟨hunlinked.mono_post fun d hd => ⟨hd, ?_⟩, hfull.mono_post fun d hd => ⟨hd, ?_⟩⟩
  · exact not_custody_of_usedAndHeld (by rw [hd]; exact mem_cons_self) (by decide)
  · exact not_custody_of_usedAndHeld (by rw [hd]; exact mem_cons_self) (by decide)

/-- A run that loses no count: a request is announced twice, its first token comes twice, its
prefill instance is unlinked, and the request is finished. -/
theorem run_custody_repeated :
    let _ : XXH3 := XXH3.lastBytes
    ∃ pool, PoolState.create ⟨10, 2, true⟩ ⟨1, 2, true⟩ 4 true = .ok pool ∧
      Ensures (run step (create {} [pool, pool])
        [.addNewRequest [7] (fourTokens 1), .addNewRequest [7] (fourTokens 1),
          .firstGeneration ⟨[1], [5]⟩, .firstGeneration ⟨[1], [5]⟩, .unlinkInstance [7],
          .readRequestQueue, .schedule ⟨0, 0⟩ (.allocate 5), .finish ⟨0, 0⟩])
        (fun _ => True) Custody := by
  intro hash
  have hpool : PoolState.create ⟨10, 2, true⟩ ⟨1, 2, true⟩ 4 true = .ok _ := rfl
  refine ⟨_, hpool, @run_custody ⟨10, 2, true⟩ _ ⟨1, 2, true⟩ 4 true _ _ ?_ _ ?_⟩
  · intro p hp
    simp only [List.mem_cons, List.not_mem_nil, or_false, or_self] at hp
    rw [hp]
    exact hpool
  · change Along (@step XXH3.lastBytes) (@Kept XXH3.lastBytes) _ _
    clear hash
    decide +kernel

end DecodeInstance

end Xllm.DisaggPD
