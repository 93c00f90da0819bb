import Xllm.Block.ManagerImpl
import Xllm.Request.Sequence

/-!
# Prefetching host blocks from the store

When a request arrives, `prefetch_from_storage` gives each of its sequences host blocks and
asks every worker of the rank to fill them from the store. The workers report how many
blocks they have got, and the scheduler polls `update_prefetch_result` until it returns true.
A sequence whose workers are done, or whose time is up, counts its blocks once and drops the
results; the blocks are then put into the host prefix cache.

A poll is a loop over the sequences of the request, and reports arrive at any time. One step
of a run is one report, the start of a poll, or one round of its loop.
-/

namespace Xllm

open Contract List Function

/-- The members of `Sequence` that a prefetch uses. The host blocks were handed out by the
host manager, so they are valid. -/
structure PrefetchSequence where
  sequence : Sequence
  dpRank : Nat := 0
  terminationFlag : Int := 2 ^ 31 - 1
  prefetchResults : List Nat := []
  timer : Nat := 0
  isTimeoutSet : Bool := false
  valid : ∀ b ∈ sequence.hostKvState.blocks, b.isValid = true

namespace PrefetchSequence

abbrev hostBlocks (s : PrefetchSequence) : List Block := s.sequence.hostKvState.blocks

def successCnt (s : PrefetchSequence) : Nat := s.prefetchResults.foldl min s.hostBlocks.length

/-- The timeout has not passed, and some worker is not done. -/
def waits (s : PrefetchSequence) (timeout now : Nat) : Bool :=
  timeout != 0 && 0 < s.terminationFlag && (!s.isTimeoutSet || decide (now - s.timer < timeout))

/-- A call with this timeout at this time uses up the results. -/
def completes (s : PrefetchSequence) (timeout now : Nat) : Bool :=
  !s.prefetchResults.isEmpty && !s.waits timeout now

/-- The blocks that the store has reported, behind the shared ones. -/
def reported (s : PrefetchSequence) : List Block :=
  (s.hostBlocks.drop s.sequence.hostKvState.numOwnedSharedBlocks).take s.successCnt

def updatePrefetchResult (s : PrefetchSequence) (timeout now : Nat) :
    Except Check (Bool × Nat × PrefetchSequence) :=
  let kv := s.sequence.hostKvState
  if s.prefetchResults = [] then .ok (true, 0, s)
  else if s.waits timeout now then
    .ok (false, 0, if s.isTimeoutSet then s else { s with timer := now, isTimeoutSet := true })
  else if s.successCnt = 0 then
    .ok (true, 0, { s with terminationFlag := 0, prefetchResults := [] })
  else
    -- `incr_kv_cache_tokens_num` and `incr_shared_kv_blocks_num`
    let numTokens := s.successCnt * KVCacheState.headSize kv.blocks
    if kv.kvCacheTokensNum + numTokens ≤ kv.currentMaxTokensCapacity then
      if kv.numOwnedSharedBlocks + s.successCnt ≤ kv.numKvBlocks then
        .ok (true, s.successCnt, { s with
          sequence := { s.sequence with hostKvState := { kv with
            kvCacheTokensNum := kv.kvCacheTokensNum + numTokens
            numOwnedSharedBlocks := kv.numOwnedSharedBlocks + s.successCnt } }
          terminationFlag := 0
          prefetchResults := [] })
      else .error .sharedOverBlocks
    else .error .kvTokensOverCapacity

/-- A message of a worker. A worker that sends no blocks is done, and so is one whose blocks
come after the flag has been taken down. -/
def report (s : PrefetchSequence) (worker count : Nat) : PrefetchSequence :=
  if 0 < count ∧ 0 < s.terminationFlag then
    { s with prefetchResults := s.prefetchResults.modify worker (· + count) }
  else { s with terminationFlag := s.terminationFlag - 1 }

end PrefetchSequence

/-- The loop of `HierarchyBlockManagerPool::update_prefetch_result`: the next sequence and the
conjunction so far. -/
structure PrefetchPoll where
  timeout : Nat
  next : Nat := 0
  prefetchResult : Bool := true

/-- A sequence has used up its results: which blocks the store had reported for it. -/
structure Applied where
  sequence : Nat
  blocks : List Block

/-- The host managers of the ranks, the sequences of a request, the running poll and what the
polls have returned. `applied` is a ghost. -/
structure PrefetchState where
  enableKvcacheStore : Bool
  hostBlockManagers : Nat → BlockManagerImpl
  sequences : List PrefetchSequence
  poll : Option PrefetchPoll := none
  returned : List Bool := []
  applied : List Applied := []

inductive PrefetchOp where
  | report (sequence worker count : Nat)
  | call (timeout : Nat)
  /-- One round of its loop, or its return. -/
  | visit (now : Nat)

namespace PrefetchState

/-- `cache(host_blocks.slice(cached_blocks - success_cnt, cached_blocks))` by the manager of the
sequence's rank. -/
def cachePrefetched (st : PrefetchState) (seq : PrefetchSequence) (successCnt : Nat) :
    Nat → BlockManagerImpl :=
  let cachedBlocks := seq.sequence.hostKvState.numOwnedSharedBlocks
  Function.update st.hostBlockManagers seq.dpRank
    ((st.hostBlockManagers seq.dpRank).cacheBlocks
      ((seq.hostBlocks.take cachedBlocks).drop (cachedBlocks - successCnt)))

def visit (st : PrefetchState) (poll : PrefetchPoll) (seq : PrefetchSequence) (now : Nat) :
    Except Check PrefetchState := do
  let (done, successCnt, seq') ← seq.updatePrefetchResult poll.timeout now
  let prefetchResult := poll.prefetchResult && done
  .ok { st with
    hostBlockManagers :=
      if prefetchResult = true ∧ 0 < successCnt then st.cachePrefetched seq' successCnt
      else st.hostBlockManagers
    sequences := st.sequences.set poll.next seq'
    poll := some { poll with next := poll.next + 1, prefetchResult := prefetchResult }
    applied := if seq.completes poll.timeout now then
      st.applied ++ [⟨poll.next, seq.reported⟩] else st.applied }

def step (st : PrefetchState) : PrefetchOp → Except Check PrefetchState
  | .report i worker count =>
      .ok { st with sequences := st.sequences.modify i fun s => s.report worker count }
  | .call timeout =>
      if st.poll.isSome then .ok st
      else if st.enableKvcacheStore then .ok { st with poll := some { timeout := timeout } }
      else .ok { st with returned := st.returned ++ [true] }
  | .visit now =>
      match st.poll with
      | none => .ok st
      | some poll =>
          match st.sequences[poll.next]? with
          | none => .ok { st with poll := none, returned := st.returned ++ [poll.prefetchResult] }
          | some seq => st.visit poll seq now

/-- Before the first poll. `add_request` prefetches for a request that has one sequence, and the
sequences that it gets later begin without results. The store is only used together with the
prefix cache, and without it nothing is prefetched. -/
structure Starts (st : PrefetchState) : Prop where
  poll : st.poll = none
  first : ∀ i seq, 0 < i → st.sequences[i]? = some seq → seq.prefetchResults = []
  returned : st.returned = []
  applied : st.applied = []
  cached : ∀ rank, (st.hostBlockManagers rank).options.enablePrefixCache = true
  unused : st.enableKvcacheStore = false → ∀ seq ∈ st.sequences, seq.prefetchResults = []

end PrefetchState

namespace PrefetchSequence

inductive Polled (s : PrefetchSequence) (timeout now : Nat) : Bool → Nat → PrefetchSequence → Prop
  | idle (h : s.prefetchResults = []) : Polled s timeout now true 0 s
  | waiting (s' : PrefetchSequence) (h : s.prefetchResults ≠ [])
      (hwaits : s.waits timeout now = true) (hresults : s'.prefetchResults = s.prefetchResults)
      (hrank : s'.dpRank = s.dpRank) : Polled s timeout now false 0 s'
  | completed (s' : PrefetchSequence) (h : s.completes timeout now = true)
      (hresults : s'.prefetchResults = []) (hrank : s'.dpRank = s.dpRank)
      (hblocks : s'.hostBlocks = s.hostBlocks)
      (hshared : s'.sequence.hostKvState.numOwnedSharedBlocks =
        s.sequence.hostKvState.numOwnedSharedBlocks + s.successCnt) :
      Polled s timeout now true s.successCnt s'

/-- One poll of the results, in time or past the timeout. -/
theorem updatePrefetchResult_ensures (s : PrefetchSequence) (timeout now : Nat) :
    IfOk (s.updatePrefetchResult timeout now) (fun r => Polled s timeout now r.1 r.2.1 r.2.2) := by
  rw [updatePrefetchResult]
  by_cases hnil : s.prefetchResults = []
  · simp only [if_pos hnil]
    exact .idle hnil
  simp only [if_neg hnil]
  by_cases hwaits : s.waits timeout now = true
  · simp only [if_pos hwaits]
    refine .waiting _ hnil hwaits ?_ ?_
    · split <;> rfl
    · split <;> rfl
  simp only [if_neg hwaits]
  have hcompletes : s.completes timeout now = true := by
    simp [completes, hnil, hwaits]
  by_cases hcnt : s.successCnt = 0
  · simp only [if_pos hcnt]
    have hnone : Polled s timeout now true s.successCnt
        { s with terminationFlag := 0, prefetchResults := [] } :=
      .completed _ hcompletes rfl rfl rfl (by rw [hcnt]; rfl)
    rwa [hcnt] at hnone
  · simp only [if_neg hcnt]
    split
    · split
      · exact .completed _ hcompletes rfl rfl rfl rfl
      · exact trivial
    · exact trivial

theorem completes_iff {s : PrefetchSequence} {timeout now : Nat} :
    s.completes timeout now = true ↔ s.prefetchResults ≠ [] ∧ s.waits timeout now = false := by
  simp [completes]

variable {s s' : PrefetchSequence} {timeout now cnt : Nat}

theorem Polled.prefetchResults_eq_nil (h : Polled s timeout now true cnt s') :
    s'.prefetchResults = [] := by
  cases h with
  | idle h => exact h
  | completed _ _ hresults => exact hresults

theorem Polled.dpRank_eq {done : Bool}
    (h : Polled s timeout now done cnt s') : s'.dpRank = s.dpRank := by
  cases h with
  | idle h => rfl
  | waiting _ _ _ _ hrank => exact hrank
  | completed _ _ _ hrank => exact hrank

theorem Polled.of_completes {done : Bool}
    (h : Polled s timeout now done cnt s') (hcompletes : s.completes timeout now = true) :
    done = true ∧ cnt = s.successCnt ∧ s'.hostBlocks = s.hostBlocks ∧
      s'.sequence.hostKvState.numOwnedSharedBlocks =
        s.sequence.hostKvState.numOwnedSharedBlocks + s.successCnt := by
  obtain ⟨hne, hnow⟩ := completes_iff.mp hcompletes
  cases h with
  | idle hnil => exact absurd hnil hne
  | waiting _ _ hwaits =>
      rw [hnow] at hwaits
      cases hwaits
  | completed _ _ _ _ hblocks hshared => exact ⟨rfl, rfl, hblocks, hshared⟩

theorem Polled.prefetchResults_eq_nil_iff {done : Bool} (h : Polled s timeout now done cnt s') :
    s'.prefetchResults = [] ↔ s.prefetchResults = [] ∨ s.completes timeout now = true := by
  cases h with
  | idle h => simp [h]
  | waiting _ hne hwaits hresults => simp [hresults, completes, hwaits]
  | completed _ hcompletes hresults => simp [hresults, hcompletes]

@[simp] theorem report_dpRank (s : PrefetchSequence) (worker count : Nat) :
    (s.report worker count).dpRank = s.dpRank := by
  rw [report]
  split <;> rfl

/-- Reports do not bring used-up results back. -/
@[simp] theorem report_prefetchResults_eq_nil_iff (s : PrefetchSequence) (worker count : Nat) :
    (s.report worker count).prefetchResults = [] ↔ s.prefetchResults = [] := by
  rw [report]
  split
  · simp
  · exact Iff.rfl

theorem slice_eq_reported (hblocks : s'.hostBlocks = s.hostBlocks)
    (hshared : s'.sequence.hostKvState.numOwnedSharedBlocks =
      s.sequence.hostKvState.numOwnedSharedBlocks + s.successCnt) :
    (s'.hostBlocks.take s'.sequence.hostKvState.numOwnedSharedBlocks).drop
      (s'.sequence.hostKvState.numOwnedSharedBlocks - s.successCnt) = s.reported := by
  rw [hblocks, hshared, Nat.add_sub_cancel, drop_take, Nat.add_sub_cancel_left, reported]

end PrefetchSequence

namespace PrefixCache

def HasEntry (c : PrefixCache) (key : XXH3Key) : Prop := (c.find key).isSome

instance (c : PrefixCache) (key : XXH3Key) : Decidable (c.HasEntry key) :=
  inferInstanceAs (Decidable (_ = true))

theorem hasEntry_store_self (w : Pass) (key : XXH3Key) (block : Block) :
    (w.store key block).cache.HasEntry key := by
  rw [HasEntry, Pass.store]
  split
  · rename_i p hp
    exact Option.isSome_of_eq_some hp
  · simp [find]

theorem HasEntry.store {w : Pass} {key : XXH3Key} (h : w.cache.HasEntry key) (key' : XXH3Key)
    (block : Block) : (w.store key' block).cache.HasEntry key := by
  rw [HasEntry, Pass.store]
  split
  · exact h
  · rw [HasEntry] at h
    by_cases heq : key' = key
    · simp [find, heq]
    · simpa [find, heq] using h

theorem HasEntry.insertBlocksLoop {w : Pass} {key : XXH3Key} (h : w.cache.HasEntry key)
    (blocks : List Block) : (insertBlocksLoop blocks w).cache.HasEntry key := by
  induction blocks generalizing w with
  | nil => exact h
  | cons block blocks ih =>
      rw [PrefixCache.insertBlocksLoop]
      split
      · exact ih (h.store _ _)
      · exact ih h

theorem hasEntry_insertBlocksLoop {blocks : List Block} {b : Block} (hb : b ∈ blocks)
    (hvalid : b.isValid = true) (w : Pass) :
    (insertBlocksLoop blocks w).cache.HasEntry b.hashValue := by
  induction blocks generalizing w with
  | nil => exact absurd hb not_mem_nil
  | cons block blocks ih =>
      rw [PrefixCache.insertBlocksLoop]
      rcases List.mem_cons.mp hb with rfl | hb
      · rw [if_pos hvalid]
        exact (hasEntry_store_self w _ _).insertBlocksLoop blocks
      · exact ih hb _

end PrefixCache

namespace BlockManagerImpl

variable {m : BlockManagerImpl}

@[simp] theorem cacheBlocks_options (blocks : List Block) :
    (m.cacheBlocks blocks).options = m.options := by
  rw [cacheBlocks]
  split <;> rfl

theorem HasEntry.cacheBlocks {key : XXH3Key} (h : m.prefixCache.HasEntry key)
    (blocks : List Block) : (m.cacheBlocks blocks).prefixCache.HasEntry key := by
  rw [BlockManagerImpl.cacheBlocks]
  split
  · exact PrefixCache.HasEntry.insertBlocksLoop (w := { cache := m.prefixCache, heap := m.heap })
      h blocks
  · exact h

theorem hasEntry_cacheBlocks {blocks : List Block} {b : Block} (hb : b ∈ blocks)
    (hvalid : b.isValid = true) (hcache : m.options.enablePrefixCache = true) :
    (m.cacheBlocks blocks).prefixCache.HasEntry b.hashValue := by
  rw [cacheBlocks, if_pos hcache]
  exact PrefixCache.hasEntry_insertBlocksLoop hb hvalid _

end BlockManagerImpl

namespace PrefetchState

variable {st₀ st : PrefetchState}

/-- How often the results of a sequence have been used up. -/
def timesApplied (st : PrefetchState) (i : Nat) : Nat := st.applied.countP (·.sequence = i)

/-- The uses of a sequence's results so far and the one that is still to come are one use, if
it had any; a poll that is still true has nobody waiting behind it, and after a true return
nobody waits. -/
structure PollInv (st₀ st : PrefetchState) : Prop where
  ranks : st.sequences.map PrefetchSequence.dpRank = st₀.sequences.map PrefetchSequence.dpRank
  once : ∀ i seq₀ seq, st₀.sequences[i]? = some seq₀ → st.sequences[i]? = some seq →
    st.timesApplied i + (if seq.prefetchResults = [] then 0 else 1) =
      if seq₀.prefetchResults = [] then 0 else 1
  store : st.enableKvcacheStore = st₀.enableKvcacheStore
  visited : ∀ poll ∈ st.poll, poll.prefetchResult = true → ∀ i seq, i < poll.next →
    st.sequences[i]? = some seq → seq.prefetchResults = []
  done : true ∈ st.returned → ∀ seq ∈ st.sequences, seq.prefetchResults = []
  fresh : ∀ poll ∈ st.poll, poll.next = 0 → poll.prefetchResult = true

variable {seq : PrefetchSequence}

theorem PollInv.exists_start (h : PollInv st₀ st) {i : Nat} (hseq : st.sequences[i]? = some seq) :
    ∃ seq₀, st₀.sequences[i]? = some seq₀ ∧ seq₀.dpRank = seq.dpRank := by
  have hrank := congrArg (·[i]?) h.ranks
  simp only [getElem?_map, hseq] at hrank
  obtain ⟨seq₀, h₀, heq⟩ := Option.map_eq_some_iff.mp hrank.symm
  exact ⟨seq₀, h₀, heq⟩

theorem PollInv.keep {st' : PrefetchState} (h : PollInv st₀ st)
    (hranks : st'.sequences.map PrefetchSequence.dpRank = st.sequences.map PrefetchSequence.dpRank)
    (hresults : ∀ (i : Nat) (seq' : PrefetchSequence), st'.sequences[i]? = some seq' →
      ∃ seq : PrefetchSequence, st.sequences[i]? = some seq ∧
      (seq'.prefetchResults = [] ↔ seq.prefetchResults = []))
    (happlied : st'.applied = st.applied) (hstore : st'.enableKvcacheStore = st.enableKvcacheStore)
    (hpoll : st'.poll = st.poll) (hreturned : st'.returned = st.returned) : PollInv st₀ st' where
  ranks := hranks.trans h.ranks
  once i seq₀ seq' h₀ hseq' := by
    obtain ⟨seq, hseq, hiff⟩ := hresults i seq' hseq'
    rw [timesApplied, happlied, ← h.once i seq₀ seq h₀ hseq, timesApplied]
    simp only [hiff]
  store := hstore.trans h.store
  visited poll hp htrue i seq' hi hseq' := by
    obtain ⟨seq, hseq, hiff⟩ := hresults i seq' hseq'
    exact hiff.mpr (h.visited poll (hpoll ▸ hp) htrue i seq hi hseq)
  done hdone seq' hseq' := by
    obtain ⟨i, hi⟩ := mem_iff_getElem?.mp hseq'
    obtain ⟨seq, hseq, hiff⟩ := hresults i seq' hi
    exact hiff.mpr (h.done (hreturned ▸ hdone) seq (mem_of_getElem? hseq))
  fresh poll hp := h.fresh poll (hpoll ▸ hp)

variable {poll : PrefetchPoll}

/-- A sequence that uses up results is the first one, and no sequence has been left waiting
before it. -/
theorem PollInv.prefetchResult_of_completes (h : PollInv st₀ st) (hstart : st₀.Starts)
    {now : Nat} (hpoll : st.poll = some poll)
    (hseq : st.sequences[poll.next]? = some seq)
    (hcompletes : seq.completes poll.timeout now = true) : poll.prefetchResult = true := by
  refine h.fresh poll hpoll (Nat.eq_zero_of_not_pos fun hpos => ?_)
  obtain ⟨seq₀, h₀, -⟩ := h.exists_start hseq
  have honce := h.once poll.next seq₀ seq h₀ hseq
  rw [if_neg (PrefetchSequence.completes_iff.mp hcompletes).1,
    if_pos (hstart.first poll.next seq₀ hpos h₀)] at honce
  omega

theorem PollInv.report (h : PollInv st₀ st) (i worker count : Nat) :
    PollInv st₀ { st with sequences := st.sequences.modify i fun s => s.report worker count } := by
  have hget : ∀ j : Nat, (st.sequences.modify i fun s => s.report worker count)[j]? =
      (st.sequences[j]?).map fun s => if i = j then s.report worker count else s := fun j =>
    getElem?_modify ..
  refine h.keep ?_ ?_ rfl rfl rfl rfl
  · refine ext_getElem? fun j => ?_
    simp only [getElem?_map, hget, Option.map_map]
    refine congrArg (Option.map · _) (funext fun s => ?_)
    split <;> simp
  · intro j seq' hseq'
    simp only [hget] at hseq'
    obtain ⟨seq, hseq, rfl⟩ := Option.map_eq_some_iff.mp hseq'
    refine ⟨seq, hseq, ?_⟩
    split <;> simp

theorem PollInv.visit {seq seq' : PrefetchSequence} {now cnt : Nat} {done : Bool}
    (h : PollInv st₀ st) (hpoll : st.poll = some poll)
    (hseq : st.sequences[poll.next]? = some seq)
    (hpolled : PrefetchSequence.Polled seq poll.timeout now done cnt seq')
    (managers : Nat → BlockManagerImpl) : PollInv st₀ { st with
      hostBlockManagers := managers
      sequences := st.sequences.set poll.next seq'
      poll := some { poll with
        next := poll.next + 1
        prefetchResult := poll.prefetchResult && done }
      applied := if seq.completes poll.timeout now then
        st.applied ++ [⟨poll.next, seq.reported⟩] else st.applied } := by
  have hlt : poll.next < st.sequences.length := (List.getElem?_eq_some_iff.mp hseq).1
  have hget : ∀ (i : Nat) (s : PrefetchSequence), (st.sequences.set poll.next seq')[i]? = some s →
      i = poll.next ∧ s = seq' ∨ i ≠ poll.next ∧ st.sequences[i]? = some s := by
    intro i s hs
    by_cases hi : i = poll.next
    · subst hi
      rw [getElem?_set_self hlt] at hs
      exact .inl ⟨rfl, (Option.some.inj hs).symm⟩
    · rw [getElem?_set_ne (Ne.symm hi)] at hs
      exact .inr ⟨hi, hs⟩
  have hother : ∀ i, i ≠ poll.next → (if seq.completes poll.timeout now = true then
      st.applied ++ [⟨poll.next, seq.reported⟩] else st.applied).countP (·.sequence = i) =
        st.timesApplied i := by
    intro i hi
    split
    · simp [Ne.symm hi, timesApplied]
    · rfl
  refine ⟨?_, ?_, h.store, ?_, ?_, ?_⟩
  · obtain ⟨hlt, rfl⟩ := List.getElem?_eq_some_iff.mp hseq
    have hsame : (st.sequences.map PrefetchSequence.dpRank).set poll.next seq'.dpRank =
        st.sequences.map PrefetchSequence.dpRank := by
      rw [hpolled.dpRank_eq, ← getElem_map PrefetchSequence.dpRank (h := by simpa using hlt),
        set_getElem_self]
    simp only [map_set, hsame]
    exact h.ranks
  · intro i seq₀ s h₀ hs
    rcases hget i s hs with ⟨rfl, rfl⟩ | ⟨hi, hs⟩
    · have honce := h.once poll.next seq₀ seq h₀ hseq
      rw [← honce]
      by_cases hcompletes : seq.completes poll.timeout now = true
      · have hne := (PrefetchSequence.completes_iff.mp hcompletes).1
        have hnil := hpolled.prefetchResults_eq_nil_iff.mpr (.inr hcompletes)
        simp [timesApplied, hcompletes, hne, hnil]
      · have hiff : s.prefetchResults = [] ↔ seq.prefetchResults = [] := by
          rw [hpolled.prefetchResults_eq_nil_iff, or_iff_left hcompletes]
        simp [timesApplied, hcompletes, hiff]
    · have hcount := hother i hi
      rw [← h.once i seq₀ s h₀ hs, ← hcount]
      rfl
  · intro poll' hpoll' htrue i s hi hs
    cases hpoll'
    obtain ⟨hbefore, hdone⟩ := Bool.and_eq_true_iff.mp htrue
    rcases hget i s hs with ⟨rfl, rfl⟩ | ⟨hne, hs⟩
    · subst hdone
      exact hpolled.prefetchResults_eq_nil
    · exact h.visited poll hpoll hbefore i s (by simp only at hi; omega) hs
  · intro hdone s hs
    obtain ⟨i, hi⟩ := mem_iff_getElem?.mp hs
    rcases hget i s hi with ⟨rfl, rfl⟩ | ⟨hne, hs⟩
    · exact hpolled.prefetchResults_eq_nil_iff.mpr
        (.inl (h.done hdone seq (mem_of_getElem? hseq)))
    · exact h.done hdone s (mem_of_getElem? hs)
  · rintro poll' hpoll' hzero
    cases hpoll'
    exact absurd hzero (Nat.succ_ne_zero _)

theorem PollInv.step (h : PollInv st₀ st) (hstart : st₀.Starts) (op : PrefetchOp) :
    IfOk (st.step op) (PollInv st₀) := by
  cases op with
  | report i worker count => exact h.report i worker count
  | call timeout =>
      rw [PrefetchState.step]
      split
      · exact h
      split
      · refine ⟨h.ranks, h.once, h.store, ?_, h.done, ?_⟩
        · intro poll hpoll _ i seq hi
          cases hpoll
          exact absurd hi (Nat.not_lt_zero i)
        · intro poll hpoll _
          cases hpoll
          rfl
      · rename_i hoff
        refine ⟨h.ranks, h.once, h.store, h.visited, ?_, h.fresh⟩
        intro _ seq hseq
        obtain ⟨i, hi⟩ := mem_iff_getElem?.mp hseq
        obtain ⟨seq₀, h₀, -⟩ := h.exists_start hi
        have hunused := hstart.unused (by rw [← h.store]; simpa using hoff) seq₀
          (mem_of_getElem? h₀)
        have honce := h.once i seq₀ seq h₀ hi
        rw [if_pos hunused] at honce
        by_contra hne
        rw [if_neg hne] at honce
        omega
  | visit now =>
      rw [PrefetchState.step]
      cases hpoll : st.poll with
      | none => exact h
      | some poll =>
          simp only
          cases hseq : st.sequences[poll.next]? with
          | none =>
              refine ⟨h.ranks, h.once, h.store, fun _ hp => (by cases hp), ?_,
                fun _ hp => (by cases hp)⟩
              intro hdone seq hmem
              rcases List.mem_append.mp hdone with hdone | hdone
              · exact h.done hdone seq hmem
              · obtain ⟨i, hi⟩ := mem_iff_getElem?.mp hmem
                have hlt : i < poll.next :=
                  lt_of_lt_of_le (List.getElem?_eq_some_iff.mp hi).1
                    (List.getElem?_eq_none_iff.mp hseq)
                exact h.visited poll hpoll (List.mem_singleton.mp hdone).symm i seq hlt hi
          | some seq =>
              refine (seq.updatePrefetchResult_ensures poll.timeout now).bind fun r hr => ?_
              exact h.visit hpoll hseq hr _

/-- Every block that the store has reported has an entry in the host cache of its rank. -/
def Kept (st₀ st : PrefetchState) : Prop :=
  ∀ a ∈ st.applied, ∀ b ∈ a.blocks, ∀ seq ∈ st₀.sequences[a.sequence]?,
    (st.hostBlockManagers seq.dpRank).prefixCache.HasEntry b.hashValue

/-- The host caches are in use and have kept everything so far. -/
structure CacheInv (st₀ st : PrefetchState) : Prop where
  poll : PollInv st₀ st
  cached : ∀ rank, (st.hostBlockManagers rank).options.enablePrefixCache = true
  kept : Kept st₀ st

@[simp] theorem cachePrefetched_options (seq : PrefetchSequence) (cnt rank : Nat) :
    (st.cachePrefetched seq cnt rank).options = (st.hostBlockManagers rank).options := by
  rw [cachePrefetched]
  by_cases hrank : rank = seq.dpRank
  · rw [hrank, update_self, BlockManagerImpl.cacheBlocks_options]
  · rw [update_of_ne hrank]

theorem hasEntry_cachePrefetched {rank : Nat} {key : XXH3Key}
    (h : (st.hostBlockManagers rank).prefixCache.HasEntry key) (seq : PrefetchSequence)
    (cnt : Nat) : (st.cachePrefetched seq cnt rank).prefixCache.HasEntry key := by
  rw [cachePrefetched]
  by_cases hrank : rank = seq.dpRank
  · subst hrank
    rw [update_self]
    exact BlockManagerImpl.HasEntry.cacheBlocks h _
  · rwa [update_of_ne hrank]

theorem hasEntry_of_reported {seq seq' : PrefetchSequence} {b : Block}
    (hcache : (st.hostBlockManagers seq'.dpRank).options.enablePrefixCache = true)
    (hblocks : seq'.hostBlocks = seq.hostBlocks)
    (hshared : seq'.sequence.hostKvState.numOwnedSharedBlocks =
      seq.sequence.hostKvState.numOwnedSharedBlocks + seq.successCnt) (hb : b ∈ seq.reported) :
    (st.cachePrefetched seq' seq.successCnt seq'.dpRank).prefixCache.HasEntry b.hashValue := by
  have hvalid : b.isValid = true :=
    seq.valid b (mem_of_mem_drop (mem_of_mem_take hb))
  rw [cachePrefetched, update_self,
    PrefetchSequence.slice_eq_reported hblocks hshared]
  exact BlockManagerImpl.hasEntry_cacheBlocks hb hvalid hcache

theorem CacheInv.visit {now : Nat}
    (h : CacheInv st₀ st) (hstart : st₀.Starts) (hpoll : st.poll = some poll)
    (hseq : st.sequences[poll.next]? = some seq) : IfOk (st.visit poll seq now) (CacheInv st₀) := by
  refine (seq.updatePrefetchResult_ensures poll.timeout now).bind fun r hr => ?_
  obtain ⟨done, cnt, seq'⟩ := r
  refine ⟨h.poll.visit hpoll hseq hr _, ?_, ?_⟩
  · intro rank
    split
    · rw [cachePrefetched_options]
      exact h.cached rank
    · exact h.cached rank
  · intro a ha b hb s hs
    have hold : a ∈ st.applied → ((if (poll.prefetchResult && done) = true ∧ 0 < cnt then
        st.cachePrefetched seq' cnt else st.hostBlockManagers)
          s.dpRank).prefixCache.HasEntry b.hashValue := by
      intro ha
      split
      · exact hasEntry_cachePrefetched (h.kept a ha b hb s hs) _ _
      · exact h.kept a ha b hb s hs
    by_cases hcompletes : seq.completes poll.timeout now = true
    swap
    · simp only [if_neg hcompletes] at ha
      exact hold ha
    simp only [if_pos hcompletes] at ha
    rcases List.mem_append.mp ha with ha | ha
    · exact hold ha
    rw [List.mem_singleton.mp ha] at hb hs
    -- The reported block says that there was something to report.
    have hpos : 0 < seq.successCnt := by
      refine Nat.pos_of_ne_zero fun hzero => ?_
      simp only [PrefetchSequence.reported, hzero] at hb
      exact not_mem_nil hb
    obtain ⟨s₀, hs₀, hrank₀⟩ := h.poll.exists_start hseq
    rw [hs₀] at hs
    cases hs
    obtain ⟨rfl, rfl, hblocks, hshared⟩ := hr.of_completes hcompletes
    have hresult := h.poll.prefetchResult_of_completes hstart hpoll hseq hcompletes
    rw [if_pos ⟨by rw [hresult, Bool.and_self], hpos⟩, hrank₀, ← hr.dpRank_eq]
    exact hasEntry_of_reported (h.cached _) hblocks hshared hb

theorem CacheInv.step (h : CacheInv st₀ st) (hstart : st₀.Starts) (op : PrefetchOp) :
    IfOk (st.step op) (CacheInv st₀) := by
  have hpoll := h.poll.step hstart op
  cases op with
  | report i worker count => exact ⟨hpoll, h.cached, h.kept⟩
  | call timeout =>
      rw [PrefetchState.step] at hpoll ⊢
      split at hpoll
      · rename_i hrunning
        rw [if_pos hrunning]
        exact h
      · rename_i hidle
        rw [if_neg hidle]
        split at hpoll
        · rename_i hon
          rw [if_pos hon]
          exact ⟨hpoll, h.cached, h.kept⟩
        · rename_i hoff
          rw [if_neg hoff]
          exact ⟨hpoll, h.cached, h.kept⟩
  | visit now =>
      rw [PrefetchState.step] at hpoll ⊢
      cases hrunning : st.poll with
      | none => exact h
      | some poll =>
          rw [hrunning] at hpoll
          simp only at hpoll ⊢
          cases hseq : st.sequences[poll.next]? with
          | none =>
              rw [hseq] at hpoll
              exact ⟨hpoll, h.cached, h.kept⟩
          | some seq => exact h.visit hstart hrunning hseq

/-- A sequence with two host blocks whose prefetch two workers answer. -/
def twoBlocks : PrefetchSequence where
  sequence := { hostKvState := { blocks := [{ id := 1, size := 2, refCount := some 0 },
    { id := 2, size := 2, hashValue := ⟨Vector.replicate 16 1⟩, refCount := some 0 }] } }
  terminationFlag := 2
  prefetchResults := [0, 0]
  valid := by decide

end PrefetchState

end Xllm
