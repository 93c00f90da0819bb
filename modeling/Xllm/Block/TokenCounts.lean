import Xllm.Block.Hierarchy

/-!
# Token counts of a sequence

A sequence that has not finished has more tokens than are in the cache, on the device and
on the host, so that there is something left to compute. The calls of the pools keep this:
a match leaves at least one token, and a sequence that gives up its blocks starts again.
The batch may compute all tokens, but then the next token is appended.
-/

namespace Xllm

open Contract

theorem KVCacheState.below_addSharedKvBlocks (kv : KVCacheState) (blocks : List Block)
    (total : Nat) (s : BlockHeap) : IfOk (kv.addSharedKvBlocks blocks total s)
      (fun r => kv.kvCacheTokensNum < total → r.1.kvCacheTokensNum < total) := by
  unfold addSharedKvBlocks
  split
  · exact fun h => h
  split
  · unfold tryReplaceUniqueBlocks
    split
    · exact ensures_any.bind fun _ _ h => h
    · exact ensures_any.bind fun _ _ h => h
  · apply ensures_any.bind
    intro s' _
    unfold settleShared
    dsimp only
    split
    · split
      · -- the last matched block may be given up, or there is none
        split
        · apply ensures_any.bind
          intro s'' _
          split
          · rename_i hbelow
            exact fun _ => hbelow
          · exact trivial
        · rw [ok_bind]
          split
          · rename_i hbelow
            exact fun _ => hbelow
          · exact trivial
      · exact trivial
    split
    · rename_i hbelow
      exact fun _ => hbelow
    · exact trivial

namespace Sequence

/-- Fewer tokens are in the cache than the sequence has, and its prompt is among them. -/
structure Live (seq : Sequence) : Prop where
  kv : seq.kvState.kvCacheTokensNum < seq.numTokens
  host : seq.hostKvState.kvCacheTokensNum < seq.numTokens
  prompt : max seq.volatileNumPromptTokens seq.numPromptTokens ≤ seq.numTokens

/-- What the calls of a pool do to the tokens of a sequence. -/
structure SameTokens (a b : Sequence) : Prop where
  numTokens : b.numTokens = a.numTokens
  finished : b.finished = a.finished
  live : a.Live → b.Live

section

variable {a b c : Sequence}

theorem SameTokens.refl : SameTokens a a := ⟨rfl, rfl, fun h => h⟩

theorem SameTokens.trans (first : SameTokens a b) (second : SameTokens b c) : SameTokens a c :=
  ⟨second.numTokens.trans first.numTokens, second.finished.trans first.finished,
    fun h => second.live (first.live h)⟩

theorem sameTokens_of_states {kv host : KVCacheState}
    (hkv : a.kvState.kvCacheTokensNum < a.numTokens → kv.kvCacheTokensNum < a.numTokens)
    (hhost : a.hostKvState.kvCacheTokensNum < a.numTokens →
      host.kvCacheTokensNum < a.numTokens) :
    SameTokens a { a with kvState := kv, hostKvState := host } :=
  ⟨rfl, rfl, fun h => ⟨hkv h.kv, hhost h.host, h.prompt⟩⟩

end

/-- What the engine does to a sequence between two calls of a scheduler. -/
inductive EngineEvent (a : Sequence) : Sequence → Prop
  | chunk {b : Sequence} {allowed cpSize : Nat} {isPrefill : Bool} {slots : List Int}
      (forward : a.processSingleSequence allowed cpSize isPrefill = .ok (slots, b))
      (stage : b.stage = .chunkedPrefill) : EngineEvent a b
  /-- A token is appended: behind the tokens that the batch has computed, or behind those
  that have come from another instance. -/
  | token {b : Sequence} {kv : KVCacheState} {token : Token}
      (append : { a with kvState := kv }.appendToken token = .ok b) : EngineEvent a b
  /-- One more accepted token of a speculative step. -/
  | accepted {kv : KVCacheState} (incr : a.kvState.incrKvCacheTokensNum 1 = .ok kv) :
      EngineEvent a { a with kvState := kv, numTokens := a.numTokens + 1 }
  | updated (index : Nat) (token : Token) : EngineEvent a (a.updateToken index token)
  | finished : EngineEvent a { a with finished := true }
  /-- Matched host blocks and others, which are to be filled from the store. -/
  | prefetched {kv : KVCacheState} {heap heap' : BlockHeap} {shared : List Block}
      (add : a.hostKvState.addSharedKvBlocks shared a.numTokens heap = .ok (kv, heap'))
      (more : List Block) : EngineEvent a { a with hostKvState := kv.addKvBlocks more }
  /-- Beam search notes where the blocks come from. -/
  | source (srcBlocks : List Block) (needSwap : Bool) : EngineEvent a { a with
      kvState := { a.kvState with srcBlocks := srcBlocks, needSwap := needSwap } }

variable {a b : Sequence}

theorem live_of_appendToken {token : Token} (h : a.appendToken token = .ok b)
    (host : a.hostKvState.kvCacheTokensNum < a.numTokens)
    (prompt : max a.volatileNumPromptTokens a.numPromptTokens ≤ a.numTokens) : b.Live := by
  unfold appendToken at h
  split at h
  · cases h
    constructor
    · exact Nat.lt_succ_self _
    · exact Nat.lt_succ_of_lt host
    · exact Nat.le_succ_of_le prompt
  · cases h

theorem live_of_chunk {allowed cpSize : Nat} {isPrefill : Bool} {slots : List Int}
    (h : a.Live) (forward : a.processSingleSequence allowed cpSize isPrefill = .ok (slots, b))
    (hstage : b.stage = .chunkedPrefill) : b.Live := by
  have hbelow : b.kvState.kvCacheTokensNum <
      max b.volatileNumPromptTokens b.numPromptTokens := by
    unfold stage at hstage
    split at hstage
    · assumption
    · cases hstage
  have hresult := (processSingleSequence_ensures allowed cpSize isPrefill).of_ok forward
  dsimp only at hresult
  rw [hresult.2] at hbelow ⊢
  exact ⟨hbelow.trans_le h.prompt, h.host, h.prompt⟩

theorem EngineEvent.live (event : EngineEvent a b) (h : a.Live) : b.Live := by
  cases event with
  | chunk forward stage => exact live_of_chunk h forward stage
  | token append => exact live_of_appendToken append h.host h.prompt
  | accepted incr =>
      unfold KVCacheState.incrKvCacheTokensNum at incr
      split at incr
      · cases incr
        exact ⟨Nat.succ_lt_succ h.kv, Nat.lt_succ_of_lt h.host, Nat.le_succ_of_le h.prompt⟩
      · cases incr
  | updated index token => exact ⟨h.kv, h.host, h.prompt⟩
  | finished => exact ⟨h.kv, h.host, h.prompt⟩
  | prefetched add more =>
      have below := (KVCacheState.below_addSharedKvBlocks _ _ _ _).of_ok add
      exact ⟨h.kv, below h.host, h.prompt⟩
  | source srcBlocks needSwap => exact ⟨h.kv, h.host, h.prompt⟩

theorem EngineEvent.unfinished (event : EngineEvent a b) (h : b.finished = false) :
    a.finished = false := by
  cases event with
  | chunk forward stage =>
      have hresult := (processSingleSequence_ensures _ _ _).of_ok forward
      dsimp only at hresult
      rwa [hresult.2] at h
  | token append =>
      unfold appendToken at append
      split at append
      · rename_i hchecks
        exact hchecks.2.1
      · cases append
  | accepted incr => exact h
  | updated index token => exact h
  | finished => cases h
  | prefetched add more => exact h
  | source srcBlocks needSwap => exact h

theorem create_live (promptTokenIds : List Token) (capacity beamWidth : Nat) :
    IfOk (create promptTokenIds capacity beamWidth) Live := by
  unfold create
  split
  · rename_i hroom
    have hpos : 0 < promptTokenIds.length := List.length_pos_iff.mpr hroom.1
    exact ⟨hpos, hpos, max_le (Nat.le_refl _) (Nat.le_refl _)⟩
  · exact trivial

end Sequence

namespace Serving

open Sequence

variable {p : Serving}

/-- A call that leaves the tokens of the sequence alone. -/
abbrev Tokened (p q : Serving) : Prop := SameTokens p.sequence q.sequence

theorem tokened_setKvState {kv : KVCacheState}
    (h : kv.kvCacheTokensNum = p.sequence.kvState.kvCacheTokensNum) :
    Tokened p (p.setKvState kv) :=
  sameTokens_of_states (fun hlt => h ▸ hlt) fun hlt => hlt

theorem tokened_setHostKvState {kv : KVCacheState}
    (h : kv.kvCacheTokensNum = p.sequence.hostKvState.kvCacheTokensNum) :
    Tokened p (p.setHostKvState kv) :=
  sameTokens_of_states (fun hlt => hlt) fun hlt => h ▸ hlt

theorem tokened_allocateEmbeddingId : IfOk p.allocateEmbeddingId (fun r => Tokened p r.2) := by
  unfold allocateEmbeddingId
  split
  · exact SameTokens.refl
  apply ensures_any.bind
  rintro ⟨block, m⟩ -
  cases block with
  | none => exact SameTokens.refl
  | some b => exact ⟨rfl, rfl, fun h => ⟨h.kv, h.host, h.prompt⟩⟩

theorem tokened_deallocateEmbeddingId : IfOk p.deallocateEmbeddingId (Tokened p) := by
  apply ensures_any.bind
  intro m _
  exact ⟨rfl, rfl, fun h => ⟨h.kv, h.host, h.prompt⟩⟩

theorem tokened_resetSequence : IfOk p.resetSequence (Tokened p) := by
  apply ensures_of_forall_ok
  intro q hq
  obtain ⟨r, hr, hq⟩ := bind_eq_ok hq
  obtain ⟨device, hdevice, hr⟩ := bind_eq_ok hr
  obtain ⟨heap, -, hdevice⟩ := bind_eq_ok hdevice
  obtain ⟨host, hhost, hr⟩ := bind_eq_ok hr
  obtain ⟨heap', -, hhost⟩ := bind_eq_ok hhost
  cases hdevice
  cases hhost
  cases hr
  cases hq
  refine ⟨rfl, rfl, fun h => ?_⟩
  have hpos : 0 < p.sequence.numTokens := Nat.zero_lt_of_lt h.kv
  exact ⟨hpos, hpos, max_le (Nat.le_refl _) ((le_max_right _ _).trans h.prompt)⟩

theorem tokened_drop (embedding : Bool) : IfOk (p.drop embedding) (Tokened p) := by
  apply ensures_any.bind
  intro m _
  split
  · apply tokened_deallocateEmbeddingId.bind
    intro q hq
    exact tokened_resetSequence.mono_post fun r hr => hq.trans hr
  · exact tokened_resetSequence

/-- Swapping blocks keeps the counts. -/
theorem tokened_processBeamSearch (needSwap : Bool) :
    IfOk (p.processBeamSearch needSwap) (fun r => Tokened p r.2) := by
  have moved : ∀ (b : Option Block) (q : Serving), Tokened p q →
      IfOk (q.sequence.kvState.processBeamSearch b q.rank.blockManager.heap)
        (fun r => r.1.kvCacheTokensNum = q.sequence.kvState.kvCacheTokensNum) := by
    intro b q _
    apply ensures_any.bind
    intro s _
    cases b with
    | none => rfl
    | some b => exact ensures_any.bind fun _ _ => rfl
  unfold processBeamSearch
  split
  · exact SameTokens.refl
  split
  · exact SameTokens.refl
  split
  · apply ensures_any.bind
    rintro ⟨newBlocks, m⟩ -
    dsimp only
    split
    · exact SameTokens.refl
    · apply (moved _ (p.setManager m) SameTokens.refl).bind
      rintro ⟨kv, heap⟩ hkv
      exact sameTokens_of_states (fun hlt => hkv ▸ hlt) fun hlt => hlt
  · apply (moved none p SameTokens.refl).bind
    rintro ⟨kv, heap⟩ hkv
    exact sameTokens_of_states (fun hlt => hkv ▸ hlt) fun hlt => hlt

theorem tokened_offloadLoop (indices : List Nat) :
    IfOk (p.offloadLoop indices) (fun r => Tokened p r.2) := by
  induction indices generalizing p with
  | nil => exact SameTokens.refl
  | cons i rest ih =>
      unfold offloadLoop
      split
      · split
        · exact ih
        · apply ih.bind
          intro r hr
          apply SameTokens.trans _ hr
          exact ⟨rfl, rfl, fun h => ⟨h.kv, h.host, h.prompt⟩⟩
      · exact trivial

theorem tokened_offload : IfOk p.offload (fun r => Tokened p r.2) := by
  unfold offload
  dsimp only
  split
  · exact tokened_offloadLoop _
  · apply ensures_any.bind
    rintro ⟨blocks, m⟩ -
    apply (tokened_offloadLoop _).mono_post
    intro r hr
    have grown : Tokened p ((p.setHostManager m).setHostKvState
        (p.sequence.hostKvState.addKvBlocks blocks)) := tokened_setHostKvState rfl
    exact grown.trans hr

theorem tokened_dropBoth : IfOk p.dropBoth (Tokened p) := by
  apply ensures_any.bind
  intro m _
  exact tokened_drop true

theorem tokened_loadHost : IfOk p.loadHost (fun r => Tokened p r.2) := by
  unfold loadHost
  dsimp only
  split
  · rename_i hless
    apply ensures_any.bind
    intro loaded _
    have counted : IfOk (p.sequence.kvState.incrKvCacheTokensNum
        (p.sequence.hostKvState.kvCacheTokensNum - p.sequence.kvState.kvCacheTokensNum))
        (fun kv => kv.kvCacheTokensNum = p.sequence.hostKvState.kvCacheTokensNum) := by
      unfold KVCacheState.incrKvCacheTokensNum
      split
      · exact Nat.add_sub_cancel' (Nat.le_of_lt hless)
      · exact trivial
    apply counted.bind
    intro kv hkv
    refine ⟨rfl, rfl, fun h => ⟨?_, h.host, h.prompt⟩⟩
    exact hkv.trans_lt h.host
  · exact SameTokens.refl

section

variable [XXH3]

theorem tokened_allocateShared : IfOk p.allocateShared (Tokened p) := by
  unfold allocateShared
  split
  · apply ensures_any.bind
    intro _ _
    apply ensures_any.bind
    rintro ⟨sharedBlocks, m⟩ -
    apply (KVCacheState.below_addSharedKvBlocks _ _ _ _).bind
    rintro ⟨kv, heap⟩ hkv
    exact sameTokens_of_states hkv fun hlt => hlt
  · exact SameTokens.refl

theorem tokened_allocateHostShared : IfOk p.allocateHostShared (Tokened p) := by
  unfold allocateHostShared
  split
  · apply ensures_any.bind
    rintro ⟨sharedBlocks, m⟩ -
    apply (KVCacheState.below_addSharedKvBlocks _ _ _ _).bind
    rintro ⟨kv, heap⟩ hkv
    exact sameTokens_of_states (fun hlt => hlt) hkv
  · exact SameTokens.refl

theorem tokened_matchHost : IfOk p.matchHost (Tokened p) := by
  unfold matchHost
  split
  · exact tokened_allocateHostShared
  · exact SameTokens.refl

theorem tokened_cache : IfOk p.cache (Tokened p) := by
  apply ensures_any.bind
  intro tokens _
  apply ensures_any.bind
  intro r _
  exact tokened_setKvState rfl

omit [XXH3] in
theorem tokened_allocateMore (numTokens : Nat) (startedEmpty needsEmbeddingId : Bool) :
    IfOk (p.allocateMore numTokens startedEmpty needsEmbeddingId) (fun r => Tokened p r.2) := by
  unfold allocateMore
  dsimp only
  split
  · exact tokened_processBeamSearch true
  apply (tokened_processBeamSearch false).bind
  rintro ⟨_, q⟩ hq
  apply ensures_any.bind
  rintro ⟨blocks, m⟩ -
  split
  · exact hq.trans (tokened_setKvState rfl)
  have rolled : IfOk ((q.setManager m).rollback startedEmpty needsEmbeddingId) (Tokened p) := by
    unfold rollback
    split
    · exact (tokened_drop needsEmbeddingId).mono_post fun r hr => hq.trans hr
    · exact hq
  exact rolled.bind fun r hr => hr

theorem tokened_allocate (numTokens : Nat) :
    IfOk (p.allocate numTokens) (fun r => Tokened p r.2) := by
  unfold allocate
  dsimp only
  apply tokened_allocateEmbeddingId.bind
  rintro ⟨ok, q⟩ hq
  split
  · split
    · apply tokened_allocateShared.bind
      intro r hr
      exact (tokened_allocateMore _ _ _).mono_post fun u hu => (hq.trans hr).trans hu
    · rw [ok_bind]
      exact (tokened_allocateMore _ _ _).mono_post fun u hu => hq.trans hu
  · exact hq

theorem tokened_deallocate : IfOk p.deallocate (Tokened p) := by
  apply tokened_cache.bind
  intro q hq
  exact (tokened_drop true).mono_post fun r hr => hq.trans hr

theorem tokened_allocateSharedHierarchy : IfOk p.allocateSharedHierarchy (Tokened p) := by
  apply tokened_allocateShared.bind
  intro q hq
  exact tokened_matchHost.mono_post fun r hr => hq.trans hr

theorem tokened_allocateHierarchy (numTokens : Nat) :
    IfOk (p.allocateHierarchy numTokens) (fun r => Tokened p r.2.2) := by
  apply (tokened_allocate numTokens).bind
  rintro ⟨ok, q⟩ hq
  dsimp only
  split
  · apply tokened_matchHost.bind
    intro r hr
    apply tokened_loadHost.bind
    rintro ⟨loaded, u⟩ hu
    exact (hq.trans hr).trans hu
  · exact hq

theorem tokened_deallocateHierarchy : IfOk p.deallocateHierarchy (fun r => Tokened p r.2) := by
  apply tokened_cache.bind
  intro q hq
  split
  · apply tokened_dropBoth.bind
    intro r hr
    exact hq.trans hr
  · apply tokened_offload.bind
    rintro ⟨pairs, r⟩ hr
    apply tokened_dropBoth.bind
    intro u hu
    exact (hq.trans hr).trans hu

end

end Serving

end Xllm
